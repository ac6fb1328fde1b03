import KaChatIndexer.IntervalChain
import KaChatIndexer.NamesCoreStep

/-!
# The live gaps and names partition the key space

The tracked gaps form one chain from the genesis bounds, and the points between them are the keys
of the tracked names. Splits, merges and continuations keep this, so every documented run does.
-/
namespace KaChatIndexer.NamesPartition
open ByteStrings NamesCodec NamesState NamesEnv NamesTransition NamesTemplates NamesRegistry
open NamesApply NamesPredictions NamesStep NamesReorg NamesShapes NamesCoreStep IntervalChain
open FinmapPatch

def gapLo (x : Outpoint × GapState) : Bytes32 := x.2.lo
def gapHi (x : Outpoint × GapState) : Bytes32 := x.2.hi

/-- `chain` lists the tracked gaps by lower bound: nonempty intervals that lead from `lo` to `hi`.
The boundaries inside are the keys of the tracked names, one name for each. -/
structure Partition (lo hi : Bytes32) (m : UtxoMap) (chain : List (Outpoint × GapState)) : Prop where
  gaps : ∀ op g, m.lookup op = some (.gap g) ↔ (op, g) ∈ chain
  span : Span gapLo gapHi lo chain hi
  names : ∀ k, (∃ op n, m.lookup op = some (.name n) ∧ n.key = k) ↔ k ∈ boundaries gapLo chain
  unique : UniqueKeys m

section
variable {lo hi : Bytes32} {m m' : UtxoMap} {chain : List (Outpoint × GapState)}
  {removed : List Outpoint} {added : List (Outpoint × Tracked)}

/-- A key inside a tracked gap is no name's key. -/
theorem Partition.key_free (h : Partition lo hi m chain) {op : Outpoint} {gap : GapState} {k : Bytes32}
    (hgap : (op, gap) ∈ chain) (hlo : gap.lo < k) (hhi : k < gap.hi) {op' : Outpoint} {n : NameState}
    (hn : m.lookup op' = some (.name n)) : n.key ≠ k := by
  rintro rfl
  obtain ⟨-, x, hx, heq⟩ := h.span.mem_boundaries.mp ((h.names n.key).mp ⟨op', n, hn, rfl⟩)
  have hsame := h.span.cover_unique hx hgap ⟨heq.le, heq ▸ (h.span.bounds hx).2.1⟩ ⟨hlo.le, hhi⟩
  rw [hsame] at heq
  exact hlo.ne heq

/-- The chain around one of its gaps holds no other gap at that outpoint. -/
theorem Partition.outpoint_ne (h : Partition lo hi m chain) {op : Outpoint} {g g' : GapState}
    {front back : List (Outpoint × GapState)} (hchain : chain = front ++ (op, g) :: back)
    (hmem : (op, g') ∈ front ∨ (op, g') ∈ back) : False := by
  have hin : (op, g') ∈ chain := by rw [hchain]; rcases hmem with h | h <;> simp [h]
  have hg := (h.gaps op g).mpr (by simp [hchain])
  rw [(h.gaps op g').mpr hin] at hg
  cases hg
  have hnodup := h.span.nodup
  rw [hchain, List.nodup_append] at hnodup
  obtain ⟨-, hback, hdisjoint⟩ := hnodup
  rcases hmem with hmem | hmem
  · exact hdisjoint _ hmem _ List.mem_cons_self rfl
  · exact (List.nodup_cons.mp hback).1 hmem

theorem partition_split (h : Partition lo hi m chain) {op left right minted : Outpoint}
    {gap : GapState} {n : NameState} (hgap : m.lookup op = some (.gap gap)) (hlo : gap.lo < n.key)
    (hhi : n.key < gap.hi) (hpatch : CorePatch m m' [op] [(left, .gap ⟨gap.lo, n.key⟩),
      (right, .gap ⟨n.key, gap.hi⟩), (minted, .name n)]) :
    ∃ chain', Partition lo hi m' chain' := by
  have hmem := (h.gaps op gap).mp hgap
  obtain ⟨front, back, hchain⟩ := List.append_of_mem hmem
  have hnames (op' : Outpoint) (n' : NameState) : m'.lookup op' = some (.name n') ↔
      (op' = minted ∧ n' = n) ∨ m.lookup op' = some (.name n') := by
    rw [hpatch.lookup op' (.name n') rfl]
    simp only [List.mem_cons, Prod.mk.injEq, reduceCtorEq, and_false, false_or, Tracked.name.injEq,
      List.not_mem_nil, or_false]
    refine or_congr_right (and_iff_left_of_imp fun hn heq => ?_)
    rw [heq, hgap] at hn
    cases hn
  have hspan : Span gapLo gapHi lo
      (front ++ (left, ⟨gap.lo, n.key⟩) :: (right, ⟨n.key, gap.hi⟩) :: back) hi :=
    (hchain ▸ h.span).split rfl rfl rfl hlo hhi
  refine ⟨_, ?_, hspan, ?_, ?_⟩
  · intro op' g
    rw [hpatch.lookup op' (.gap g) rfl, h.gaps, hchain]
    simp only [List.mem_cons, List.mem_append, Prod.mk.injEq, Tracked.gap.injEq, reduceCtorEq,
      and_false, List.not_mem_nil, or_false]
    constructor
    · rintro ((h1 | h1) | ⟨h1 | h1 | h1, hne⟩)
      · exact .inr (.inl h1)
      · exact .inr (.inr (.inl h1))
      · exact .inl h1
      · exact absurd h1.1 hne
      · exact .inr (.inr (.inr h1))
    · rintro (h1 | h1 | h1 | h1)
      · exact .inr ⟨.inl h1, fun heq => h.outpoint_ne hchain (.inl (heq ▸ h1))⟩
      · exact .inl (.inl h1)
      · exact .inl (.inr h1)
      · exact .inr ⟨.inr (.inr h1), fun heq => h.outpoint_ne hchain (.inr (heq ▸ h1))⟩
  · intro k
    have hold : (∃ op n, m.lookup op = some (.name n) ∧ n.key = k) ↔
        k ≠ lo ∧ ∃ x ∈ chain, gapLo x = k := by rw [h.names, h.span.mem_boundaries]
    have hne : n.key ≠ lo := ((h.span.bounds hmem).1.trans_lt hlo).ne'
    rw [hspan.mem_boundaries]
    constructor
    · rintro ⟨op', n', hn', rfl⟩
      rcases (hnames op' n').mp hn' with ⟨-, rfl⟩ | hn'
      · exact ⟨hne, (right, ⟨n'.key, gap.hi⟩), by simp, rfl⟩
      · obtain ⟨hk, x, hx, hxk⟩ := hold.mp ⟨op', n', hn', rfl⟩
        rw [hchain, List.mem_append, List.mem_cons] at hx
        rcases hx with hx | rfl | hx
        · exact ⟨hk, x, by simp [hx], hxk⟩
        · exact ⟨hk, (left, ⟨gap.lo, n.key⟩), by simp, hxk⟩
        · exact ⟨hk, x, by simp [hx], hxk⟩
    · rintro ⟨hk, x, hx, hxk⟩
      simp only [List.mem_append, List.mem_cons] at hx
      have hfrom (hx : x ∈ chain) : ∃ op n, m'.lookup op = some (.name n) ∧ n.key = k := by
        obtain ⟨op', n', hn', hkey⟩ := hold.mpr ⟨hk, x, hx, hxk⟩
        exact ⟨op', n', (hnames op' n').mpr (.inr hn'), hkey⟩
      rcases hx with hx | rfl | rfl | hx
      · exact hfrom (by simp [hchain, hx])
      · obtain ⟨op', n', hn', hkey⟩ := hold.mpr ⟨hk, (op, gap), hmem, hxk⟩
        exact ⟨op', n', (hnames op' n').mpr (.inr hn'), hkey⟩
      · exact ⟨minted, n, (hnames minted n).mpr (.inl ⟨rfl, rfl⟩), hxk⟩
      · exact hfrom (by simp [hchain, hx])
  · intro op1 op2 n1 n2 h1 h2 hkey
    rcases (hnames op1 n1).mp h1 with ⟨rfl, rfl⟩ | h1 <;>
      rcases (hnames op2 n2).mp h2 with ⟨rfl, rfl⟩ | h2
    · rfl
    · exact absurd hkey.symm (h.key_free hmem hlo hhi h2)
    · exact absurd hkey (h.key_free hmem hlo hhi h1)
    · exact h.unique op1 op2 n1 n2 h1 h2 hkey

theorem partition_exit (h : Partition lo hi m chain) {op1 op2 op3 merged : Outpoint}
    {loGap hiGap : GapState} {n : NameState} (hlo : m.lookup op1 = some (.gap loGap))
    (hn : m.lookup op2 = some (.name n)) (hhi : m.lookup op3 = some (.gap hiGap))
    (hlokey : loGap.hi = n.key) (hkeyhi : n.key = hiGap.lo)
    (hpatch : CorePatch m m' [op1, op2, op3] [(merged, .gap (mergeGaps loGap hiGap))]) :
    ∃ chain', Partition lo hi m' chain' := by
  have hmem1 := (h.gaps op1 loGap).mp hlo
  have hmem3 := (h.gaps op3 hiGap).mp hhi
  obtain ⟨front, back, hchain⟩ := h.span.adjacent hmem1 hmem3 (hlokey.trans hkeyhi)
  have hchain' : chain = (front ++ [(op1, loGap)]) ++ (op3, hiGap) :: back := by simp [hchain]
  have hnames (op' : Outpoint) (n' : NameState) : m'.lookup op' = some (.name n') ↔
      m.lookup op' = some (.name n') ∧ op' ≠ op2 := by
    rw [hpatch.lookup op' (.name n') rfl]
    simp only [List.mem_cons, Prod.mk.injEq, reduceCtorEq, and_false, List.not_mem_nil, or_false,
      false_or, not_or]
    refine ⟨fun h => ⟨h.1, h.2.2.1⟩, fun h => ⟨h.1, fun heq => ?_, h.2, fun heq => ?_⟩⟩
    · rw [heq, hlo] at h
      cases h.1
    · rw [heq, hhi] at h
      cases h.1
  have hspan : Span gapLo gapHi lo (front ++ (merged, mergeGaps loGap hiGap) :: back) hi :=
    (hchain ▸ h.span).merge rfl rfl
  refine ⟨_, ?_, hspan, ?_, ?_⟩
  · intro op' g
    rw [hpatch.lookup op' (.gap g) rfl, h.gaps, hchain]
    simp only [List.mem_cons, List.mem_append, Prod.mk.injEq, Tracked.gap.injEq,
      List.not_mem_nil, or_false, not_or]
    constructor
    · rintro (h1 | ⟨h1 | h1 | h1 | h1, hne1, -, hne3⟩)
      · exact .inr (.inl h1)
      · exact .inl h1
      · exact absurd h1.1 hne1
      · exact absurd h1.1 hne3
      · exact .inr (.inr h1)
    · have hne2 (hin : (op', g) ∈ chain) : op' ≠ op2 := by
        rintro rfl
        rw [(h.gaps op' g).mpr hin] at hn
        cases hn
      rintro (h1 | h1 | h1)
      · exact .inr ⟨.inl h1, fun heq => h.outpoint_ne hchain (.inl (heq ▸ h1)),
          hne2 (by simp [hchain, h1]),
          fun heq => h.outpoint_ne hchain' (.inl (List.mem_append_left _ (heq ▸ h1)))⟩
      · exact .inl h1
      · exact .inr ⟨.inr (.inr (.inr h1)),
          fun heq => h.outpoint_ne hchain (.inr (List.mem_cons_of_mem _ (heq ▸ h1))),
          hne2 (by simp [hchain, h1]), fun heq => h.outpoint_ne hchain' (.inr (heq ▸ h1))⟩
  · intro k
    have hold : (∃ op n, m.lookup op = some (.name n) ∧ n.key = k) ↔
        k ≠ lo ∧ ∃ x ∈ chain, gapLo x = k := by rw [h.names, h.span.mem_boundaries]
    rw [hspan.mem_boundaries]
    constructor
    · rintro ⟨op', n', hn', rfl⟩
      obtain ⟨hn', hne⟩ := (hnames op' n').mp hn'
      obtain ⟨hk, x, hx, hxk⟩ := hold.mp ⟨op', n', hn', rfl⟩
      rw [hchain, List.mem_append, List.mem_cons, List.mem_cons] at hx
      rcases hx with hx | rfl | rfl | hx
      · exact ⟨hk, x, by simp [hx], hxk⟩
      · exact ⟨hk, (merged, mergeGaps loGap hiGap), by simp, hxk⟩
      · exact absurd (h.unique op' op2 n' n hn' hn (hxk.symm.trans hkeyhi.symm)) hne
      · exact ⟨hk, x, by simp [hx], hxk⟩
    · rintro ⟨hk, x, hx, hxk⟩
      obtain ⟨y, hy, hyk, hyne⟩ : ∃ y ∈ chain, gapLo y = k ∧ y ≠ (op3, hiGap) := by
        simp only [List.mem_append, List.mem_cons] at hx
        rcases hx with hx | rfl | hx
        · exact ⟨x, by simp [hchain, hx], hxk,
            fun heq => h.outpoint_ne hchain' (.inl (List.mem_append_left _ (heq ▸ hx)))⟩
        · refine ⟨(op1, loGap), hmem1, hxk, fun heq => ?_⟩
          have hlt := (h.span.bounds hmem1).2.1
          have hsame : loGap = hiGap := congrArg Prod.snd heq
          rw [hsame] at hlokey
          exact hlt.ne (by simp only [gapLo, gapHi, hsame]; rw [hlokey, hkeyhi])
        · exact ⟨x, by simp [hchain, hx], hxk, fun heq => h.outpoint_ne hchain' (.inr (heq ▸ hx))⟩
      obtain ⟨op', n', hn', hkey⟩ := hold.mpr ⟨hk, y, hy, hyk⟩
      refine ⟨op', n', (hnames op' n').mpr ⟨hn', ?_⟩, hkey⟩
      rintro rfl
      rw [hn] at hn'
      cases hn'
      refine hyne (h.span.lo_injective hy hmem3 ?_)
      rw [hyk, ← hkey]
      exact hkeyhi
  · intro op1 op2 n1 n2 h1 h2 hkey
    exact h.unique op1 op2 n1 n2 ((hnames op1 n1).mp h1).1 ((hnames op2 n2).mp h2).1 hkey

theorem partition_continue (h : Partition lo hi m chain) {op next : Outpoint} {old ns : NameState}
    (hold : m.lookup op = some (.name old)) (hkey : ns.key = old.key)
    (hpatch : CorePatch m m' [op] [(next, .name ns)]) : Partition lo hi m' chain := by
  have hnames (op' : Outpoint) (n' : NameState) : m'.lookup op' = some (.name n') ↔
      (op' = next ∧ n' = ns) ∨ m.lookup op' = some (.name n') ∧ op' ≠ op := by
    rw [hpatch.lookup op' (.name n') rfl]
    simp
  refine ⟨fun op' g => ?_, h.span, fun k => ?_, ?_⟩
  · rw [hpatch.lookup op' (.gap g) rfl, ← h.gaps]
    simp only [List.mem_cons, Prod.mk.injEq, reduceCtorEq, and_false, List.not_mem_nil, or_false,
      false_or]
    refine and_iff_left_of_imp fun hg heq => ?_
    rw [heq, hold] at hg
    cases hg
  · rw [← h.names]
    constructor
    · rintro ⟨op', n', hn', rfl⟩
      rcases (hnames op' n').mp hn' with ⟨-, rfl⟩ | ⟨hn', -⟩
      · exact ⟨op, old, hold, hkey.symm⟩
      · exact ⟨op', n', hn', rfl⟩
    · rintro ⟨op', n', hn', rfl⟩
      by_cases hop : op' = op
      · rw [hop, hold] at hn'
        cases hn'
        exact ⟨next, ns, (hnames next ns).mpr (.inl ⟨rfl, rfl⟩), hkey⟩
      · exact ⟨op', n', (hnames op' n').mpr (.inr ⟨hn', hop⟩), rfl⟩
  · intro op1 op2 n1 n2 h1 h2 heq
    rcases (hnames op1 n1).mp h1 with ⟨rfl, rfl⟩ | ⟨h1, hne1⟩ <;>
      rcases (hnames op2 n2).mp h2 with ⟨rfl, rfl⟩ | ⟨h2, hne2⟩
    · rfl
    · exact absurd (h.unique op2 op n2 old h2 hold (heq.symm.trans hkey)) hne2
    · exact absurd (h.unique op1 op n1 old h1 hold (heq.trans hkey)) hne1
    · exact h.unique op1 op2 n1 n2 h1 h2 heq

/-- Every core step keeps the partition. -/
theorem partition_step (h : Partition lo hi m chain) {es : List Event}
    (hstep : CoreStep m removed added es) (hpatch : CorePatch m m' removed added) :
    ∃ chain', Partition lo hi m' chain' := by
  cases hstep with
  | split hgap hlo hhi => exact partition_split h hgap hlo hhi hpatch
  | exit hlo hn hhi hlokey hkeyhi => exact partition_exit h hlo hn hhi hlokey hkeyhi hpatch
  | continued hold hevent => exact ⟨chain, partition_continue h hold hevent.1 hpatch⟩
  | aside =>
    have hsame (op : Outpoint) (s : Tracked) (hs : isCore s = true) :
        m'.lookup op = some s ↔ m.lookup op = some s := by simpa using hpatch.lookup op s hs
    refine ⟨chain, fun op g => ?_, h.span, fun k => ?_, fun op1 op2 n1 n2 h1 h2 => ?_⟩
    · rw [hsame op (.gap g) rfl, h.gaps]
    · simp only [← h.names, hsame _ (.name _) rfl]
    · exact h.unique op1 op2 n1 n2 ((hsame op1 (.name n1) rfl).mp h1) ((hsame op2 (.name n2) rfl).mp h2)

/-- A key between the bounds that no name has lies strictly inside exactly one gap. -/
theorem Partition.free_key (h : Partition lo hi m chain) {k : Bytes32} (hlo : lo < k) (hhi : k < hi)
    (hfree : ∀ op n, m.lookup op = some (.name n) → n.key ≠ k) :
    ∃! x, x ∈ chain ∧ x.2.lo < k ∧ k < x.2.hi := by
  obtain ⟨x, hx, hxlo, hxhi⟩ := h.span.cover hlo.le hhi
  refine ⟨x, ⟨hx, lt_of_le_of_ne hxlo fun heq => ?_, hxhi⟩, fun y hy => ?_⟩
  · obtain ⟨op, n, hn, hkey⟩ := (h.names k).mpr (h.span.mem_boundaries.mpr ⟨hlo.ne', x, hx, heq⟩)
    exact hfree op n hn hkey
  · exact h.span.cover_unique hy.1 hx ⟨hy.2.1.le, hy.2.2⟩ ⟨hxlo, hxhi⟩

end

/-- A registry as the follower seeds it: the genesis gap, then the price shards. -/
def seedAll (genesis : Outpoint) (gap : GapState) (shards : List (Outpoint × PriceState)) : Registry :=
  shards.foldl (fun r x => r.seedShard x.1 x.2) (Registry.new.seedGenesis genesis gap)

/-- Every transaction of the run has a fresh id and a documented shape when it is applied. -/
def ShapedRun (env : Env) (t : Templates) : Registry → List Tx → Prop
  | _, [] => True
  | r, tx :: txs => FreshId r.utxos tx ∧ Shape env t tx (spendsOf t tx r.utxos) ∧
      ShapedRun env t (applyTx env t tx r).1 txs

section
variable {env : Env} {t : Templates}

theorem seedAll_core {genesis : Outpoint} {gap : GapState} {shards : List (Outpoint × PriceState)}
    (hshards : ∀ x ∈ shards, x.1 ≠ genesis) (op : Outpoint) (s : Tracked) (hs : isCore s = true) :
    (seedAll genesis gap shards).utxos.lookup op = some s ↔ op = genesis ∧ s = .gap gap := by
  unfold seedAll
  refine List.foldlRecOn (motive := fun r : Registry =>
    r.utxos.lookup op = some s ↔ op = genesis ∧ s = .gap gap) shards _ ?_ fun r hr x hx => ?_
  · simp only [Registry.seedGenesis, Registry.new, lookup_insert_of]
    split
    · next hop => simp only [hop, true_and, Option.some.injEq, eq_comm]
    · next hop => simp [hop]
  · simp only [Registry.seedShard, lookup_insert_of]
    split
    · next hop =>
      refine iff_of_false (fun h => ?_) fun h => hshards x hx (hop.symm.trans h.1)
      rw [← Option.some.inj h] at hs
      cases hs
    · exact hr

theorem partition_seeds {lo hi : Bytes32} (hlt : lo < hi) {genesis : Outpoint}
    {shards : List (Outpoint × PriceState)} (hshards : ∀ x ∈ shards, x.1 ≠ genesis) :
    Partition lo hi (seedAll genesis ⟨lo, hi⟩ shards).utxos [(genesis, ⟨lo, hi⟩)] := by
  have hnone (op : Outpoint) (n : NameState) :
      ¬ (seedAll genesis ⟨lo, hi⟩ shards).utxos.lookup op = some (.name n) := by
    rw [seedAll_core hshards op (.name n) rfl]
    simp
  have hspan : Span gapLo gapHi lo [(genesis, ⟨lo, hi⟩)] hi :=
    @Span.cons _ _ _ gapLo gapHi (genesis, ⟨lo, hi⟩) [] hi hlt (.nil hi)
  refine ⟨fun op g => ?_, hspan, fun k => ?_, fun op1 op2 n1 n2 h1 => absurd h1 (hnone op1 n1)⟩
  · rw [seedAll_core hshards op (.gap g) rfl]
    simp
  · simp [hnone, boundaries]

theorem partition_run {lo hi : Bytes32} {r : Registry} {txs pre : List Tx}
    (hrun : ShapedRun env t r txs) (hpre : pre <+: txs) {chain : List (Outpoint × GapState)}
    (h : Partition lo hi r.utxos chain) :
    ∃ chain', Partition lo hi (applyAll env t r pre).utxos chain' := by
  induction txs generalizing r pre chain with
  | nil => exact ⟨chain, by rwa [List.prefix_nil.mp hpre]⟩
  | cons tx txs ih =>
    cases pre with
    | nil => exact ⟨chain, h⟩
    | cons tx' pre =>
      obtain ⟨rfl, htail⟩ := List.cons_prefix_cons.mp hpre
      obtain ⟨hfresh, hshape, hnext⟩ := hrun
      obtain ⟨removed, added, hstep, hpatch⟩ := steps_of_shape hfresh h.unique hshape
      rw [← applyTx_utxos] at hpatch
      obtain ⟨chain', h'⟩ := partition_step h hstep hpatch
      have hlater := ih hnext htail h'
      exact hlater

/-- After every prefix of a documented run from one genesis gap, the tracked gaps are one chain of
nonempty intervals whose inner boundaries are the keys of the tracked names; a key names one
tracked name; and every other key is strictly inside exactly one gap. -/
theorem gaps_partition_keys (env : Env) (t : Templates) {lo hi : Bytes32} (hlt : lo < hi)
    (genesis : Outpoint) (shards : List (Outpoint × PriceState))
    (hshards : ∀ x ∈ shards, x.1 ≠ genesis) (txs : List Tx)
    (hrun : ShapedRun env t (seedAll genesis ⟨lo, hi⟩ shards) txs) (pre : List Tx)
    (hpre : pre <+: txs) :
    ∃ chain, Partition lo hi (applyAll env t (seedAll genesis ⟨lo, hi⟩ shards) pre).utxos chain ∧
      (∀ op n, (applyAll env t (seedAll genesis ⟨lo, hi⟩ shards) pre).utxos.lookup op =
          some (.name n) →
        nameByKey env (applyAll env t (seedAll genesis ⟨lo, hi⟩ shards) pre).utxos n.key =
          some (op, n)) ∧
      ∀ k, lo < k → k < hi → (∀ op n,
          (applyAll env t (seedAll genesis ⟨lo, hi⟩ shards) pre).utxos.lookup op = some (.name n) →
          n.key ≠ k) →
        ∃! x, x ∈ chain ∧ x.2.lo < k ∧ k < x.2.hi := by
  obtain ⟨chain, h⟩ := partition_run hrun hpre (partition_seeds hlt hshards)
  refine ⟨chain, h, fun op n hn => nameByKey_eq hn fun op' n' hn' hkey => ?_, fun k hlo hhi hfree => ?_⟩
  · exact h.unique op' op n' n hn' hn hkey
  · exact h.free_key hlo hhi hfree

end

/-- The decoded signature script of the registration of `alice`. -/
def aliceSig : SigScript where
  args := [.data (ascii "alice"), .data (NamesSample.fill 7).toList,
    .data (NamesSample.fill 3).toList, .data [0x00, 0x6c, 0x50, 0xc4, 0xa0, 0x01], .data [2], .num 0,
    .num 0]
  dispatchTag := ⟨[0x86, 0x67, 0xaf, 0x5e], rfl⟩
  redeem := NamesSample.templates.gap.redeem NamesSample.genesisGap.encode

theorem registerAlice_shaped : ShapedRun NamesSample.env NamesSample.templates
    (seedAll NamesSample.genesis ⟨zero32, NamesSample.fill 0xff⟩ []) [NamesSample.registerAlice] := by
  have hspends : spendsOf NamesSample.templates NamesSample.registerAlice
      (seedAll NamesSample.genesis ⟨zero32, NamesSample.fill 0xff⟩ []).utxos =
      [⟨0, NamesSample.genesis, .gap NamesSample.genesisGap, .gapRegister, aliceSig⟩] := by
    decide +kernel
  have hout : List.Forall₂ (Carries NamesSample.env NamesSample.templates NamesSample.registerAlice)
      (splitPredictions NamesSample.templates 0 (NamesSample.aliceLeft, NamesSample.aliceRight,
        NamesSample.aliceName (NamesSample.fill 7))) [0, 1, 2] :=
    .cons (by decide +kernel) (.cons (by decide +kernel) (.cons (by decide +kernel) .nil))
  have hargs : registerArgs aliceSig = some (ascii "alice", NamesSample.fill 7, NamesSample.now, 2) := by
    decide +kernel
  have hsplit : registerPredictions NamesSample.env NamesSample.templates
      ⟨0, NamesSample.genesis, .gap NamesSample.genesisGap, .gapRegister, aliceSig⟩ =
      splitPredictions NamesSample.templates 0 (NamesSample.aliceLeft, NamesSample.aliceRight,
        NamesSample.aliceName (NamesSample.fill 7)) := by decide +kernel
  refine ⟨by decide +kernel, ?_, trivial⟩
  rw [hspends]
  refine .register rfl rfl rfl hargs (by decide +kernel) (by decide +kernel) ?_
  rw [hsplit]
  exact ⟨⟨[0, 1, 2], hout, by decide⟩, fun p _ q hq => by simp [priceSpendPredictions,
    NamesSample.templates, Templates.v2] at hq⟩

/-- The partition after `alice` is registered. -/
theorem alice_partitions_keys :
    ∃ chain, Partition zero32 (NamesSample.fill 0xff) (applyAll NamesSample.env NamesSample.templates
        (seedAll NamesSample.genesis ⟨zero32, NamesSample.fill 0xff⟩ [])
        [NamesSample.registerAlice]).utxos chain ∧
      (∀ op n, (applyAll NamesSample.env NamesSample.templates
          (seedAll NamesSample.genesis ⟨zero32, NamesSample.fill 0xff⟩ [])
          [NamesSample.registerAlice]).utxos.lookup op = some (.name n) →
        nameByKey NamesSample.env (applyAll NamesSample.env NamesSample.templates
          (seedAll NamesSample.genesis ⟨zero32, NamesSample.fill 0xff⟩ [])
          [NamesSample.registerAlice]).utxos n.key = some (op, n)) ∧
      ∀ k, zero32 < k → k < NamesSample.fill 0xff → (∀ op n,
          (applyAll NamesSample.env NamesSample.templates
            (seedAll NamesSample.genesis ⟨zero32, NamesSample.fill 0xff⟩ [])
            [NamesSample.registerAlice]).utxos.lookup op = some (.name n) → n.key ≠ k) →
        ∃! x, x ∈ chain ∧ x.2.lo < k ∧ k < x.2.hi :=
  gaps_partition_keys NamesSample.env NamesSample.templates (by decide +kernel) NamesSample.genesis []
    (by simp) [NamesSample.registerAlice] registerAlice_shaped [NamesSample.registerAlice]
    List.prefix_rfl

end KaChatIndexer.NamesPartition

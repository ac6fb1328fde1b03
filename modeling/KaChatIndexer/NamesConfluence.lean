import KaChatIndexer.FollowerBootstrap
import KaChatIndexer.NamesContinuations
import KaChatIndexer.NamesSpent

/-!
# The order of a rebuild

A transaction whose registry and price inputs are tracked reads nothing else from the tracked set
that decides what it creates, so two ready transactions commute. Offers are not waited for: one
that is both created and spent by the transactions is where two orders may differ.
-/
namespace KaChatIndexer.NamesConfluence
open ByteStrings NamesCodec NamesState NamesEnv NamesTransition NamesTemplates NamesRegistry
open NamesApply NamesPredictions NamesStep NamesReorg NamesSpent NamesContinuations
open FollowerBootstrap GatedConfluence FinmapPatch

/-- The spends of gaps, names and shards. -/
def held (spends : List Spend) : List Spend := spends.filter fun s => !s.tracked.isOffer

/-- An offer accepted by the transaction goes with a name transfer. -/
def AcceptsTransferred (t : Templates) (tx : Tx) (utxos : UtxoMap) : Prop :=
  hasEntry (spendsOf t tx utxos) .offerAccept = true →
    hasEntry (spendsOf t tx utxos) .nameTransfer = true

section
variable {env : Env} {t : Templates} {tx : Tx} {m m' : UtxoMap}

theorem mem_held {spends : List Spend} {s : Spend} :
    s ∈ held spends ↔ s ∈ spends ∧ s.tracked.isOffer = false := by
  simp [held]

/-- What ignores each spend of an offer ignores them all. -/
theorem filter_ignored {β : Type} {f : List Spend → β} {spends : List Spend} (pre : List Spend)
    (hf : ∀ pre post, ∀ s ∈ spends, s.tracked.isOffer = true → f (pre ++ s :: post) = f (pre ++ post)) :
    f (pre ++ held spends) = f (pre ++ spends) := by
  induction spends generalizing pre with
  | nil => rfl
  | cons s spends ih =>
    have hrest (pre : List Spend) := ih pre fun pre post s hs => hf pre post s (List.mem_cons_of_mem _ hs)
    cases hs : s.tracked.isOffer with
    | true =>
      have hheld : held (s :: spends) = held spends := by simp [held, hs]
      rw [hheld, hrest, hf pre spends s List.mem_cons_self hs]
    | false =>
      have hheld : held (s :: spends) = s :: held spends := by simp [held, hs]
      have hcons := hrest (pre ++ [s])
      rwa [List.append_assoc, List.append_assoc, List.singleton_append, List.singleton_append,
        ← hheld] at hcons

theorem handled_ignored (pre post : List Spend) {s : Spend} (hs : s ∈ spendsOf t tx m)
    (hoffer : s.tracked.isOffer = true) :
    handled env t (pre ++ s :: post) = handled env t (pre ++ post) := by
  have hcontract := spend_contract hs
  obtain ⟨idx, op, tracked, entry, sig⟩ := s
  cases tracked with
  | gap | name | shard => cases hoffer
  | offer o =>
    have hne (e : Entry) (he : e.contract ≠ .offer) : entry ≠ e := by
      rintro rfl
      exact he hcontract
    have hmerge := hne .gapMerge (by decide)
    have hregister := hne .gapRegister (by decide)
    have himport := hne .gapImport (by decide)
    cases hid : t.priceId <;>
      simp [handled, priceSpendPredictions, shardIns, pricePredictions, exitPredictions, mergeGap,
        absorbedGap, namePredictions, hasEntry, List.find?_append, List.findSome?_append,
        List.findSome?_cons, hid, hmerge, hregister, himport]

theorem handled_held : handled env t (held (spendsOf t tx m)) = handled env t (spendsOf t tx m) :=
  filter_ignored [] fun pre post _ hs hoffer => handled_ignored pre post hs hoffer

/-- With no offer accepted on its own, the branches ask for the handled predictions and no more. -/
theorem actions_eq (h : AcceptsTransferred t tx m) :
    actions env t (spendsOf t tx m) = (handled env t (held (spendsOf t tx m))).map sure := by
  have haccept (s : Spend) (hs : s ∈ spendsOf t tx m) :
      acceptActions env t (spendsOf t tx m) s = [] := by
    unfold acceptActions
    split
    · refine if_neg fun hcase => hcase.2 (h ?_)
      exact List.any_eq_true.mpr ⟨s, hs, by simpa using hcase.1⟩
    · rfl
  have hnames : ((spendsOf t tx m).flatMap fun s =>
      (namePredictions t s).map sure ++ acceptActions env t (spendsOf t tx m) s) =
      ((spendsOf t tx m).flatMap (namePredictions t)).map sure := by
    rw [List.map_flatMap]
    refine List.flatMap_congr fun s hs => ?_
    rw [haccept s hs, List.append_nil]
  rw [handled_held, actions, branchActions, handled, List.map_append, hnames]
  congr 1
  split_ifs <;> rfl

/-- The rule for what a transaction inserts, where no offer is accepted on its own. -/
theorem applyWork_handled_induction {I : Claims → Prop} (h : AcceptsTransferred t tx m)
    (h0 : I (marked env t tx m, []))
    (hstep : ∀ c i, ∀ p ∈ handled env t (held (spendsOf t tx m)), I c → Carries env t tx p i →
      I (c.1.insert (tx.outpoint i) p.state, c.2 ++ [i])) :
    I (Work.claims (applyWork env t tx m)) := by
  rw [applyWork_claims, actions_eq h, foldl_sure]
  refine List.foldlRecOn (motive := I) _ _ h0 fun c hc p hp => ?_
  unfold tryPlace
  split
  · next i hi => exact hstep c i p hp hc (findOutput_some hi).2
  · exact hc

/-- What a transaction puts at its own outpoints depends on the gaps, names and shards it spends. -/
theorem own_determined (h : AcceptsTransferred t tx m) (h' : AcceptsTransferred t tx m')
    (hheld : held (spendsOf t tx m) = held (spendsOf t tx m')) {op : Outpoint} (hid : op.1 = tx.id)
    (hop : m.lookup op = m'.lookup op) :
    (applyUtxos env t tx m).lookup op = (applyUtxos env t tx m').lookup op := by
  have hfold (ps : List Prediction) (c c' : Claims) (hused : c.2 = c'.2)
      (hlookup : c.1.lookup op = c'.1.lookup op) :
      (ps.foldl (tryPlace env t tx) c).1.lookup op = (ps.foldl (tryPlace env t tx) c').1.lookup op := by
    induction ps generalizing c c' with
    | nil => exact hlookup
    | cons p ps ih =>
      rw [List.foldl_cons, List.foldl_cons]
      unfold tryPlace
      rw [hused]
      cases findOutput tx (t.trackedSpk env p.state) c'.2 p.bind with
      | none => exact ih c c' hused hlookup
      | some i =>
        refine ih _ _ rfl ?_
        simp only [lookup_insert_of, hlookup]
  have hmarked : (marked env t tx m).lookup op = (marked env t tx m').lookup op := by
    unfold marked applyOfferMarker
    split
    · simp only [lookup_insert_of, hop]
    · exact hop
  have hclaims := hfold (handled env t (held (spendsOf t tx m))) (marked env t tx m, [])
    (marked env t tx m', []) rfl hmarked
  rw [applyUtxos_own hid, applyUtxos_own hid]
  change (Work.claims (applyWork env t tx m)).1.lookup op =
    (Work.claims (applyWork env t tx m')).1.lookup op
  rw [applyWork_claims, applyWork_claims, actions_eq h, actions_eq h', foldl_sure, foldl_sure,
    ← hheld]
  exact hclaims

theorem consumed_congr {op : Outpoint} (h : m.lookup op = m'.lookup op) :
    op ∈ consumed t tx m ↔ op ∈ consumed t tx m' := by
  rw [mem_consumed, mem_consumed]
  refine exists_congr fun input => and_congr_right fun _ => and_congr_right fun hop => ?_
  unfold Recognised
  rw [hop, h]

/-- Outpoints that the transaction neither creates nor spends stay as they are. -/
theorem lookup_untouched {op : Outpoint} (hid : op.1 ≠ tx.id)
    (hinput : ∀ input ∈ tx.inputs, input.previousOutpoint ≠ op) :
    (applyUtxos env t tx m).lookup op = m.lookup op := by
  rw [applyUtxos_other hid, if_neg]
  intro hmem
  obtain ⟨input, hmem, hop, -⟩ := mem_consumed.mp hmem
  exact hinput input hmem hop

theorem lookup_step_congr (h : AcceptsTransferred t tx m) (h' : AcceptsTransferred t tx m')
    (hheld : held (spendsOf t tx m) = held (spendsOf t tx m')) {op : Outpoint}
    (hop : m.lookup op = m'.lookup op) :
    (applyUtxos env t tx m).lookup op = (applyUtxos env t tx m').lookup op := by
  by_cases hid : op.1 = tx.id
  · exact own_determined h h' hheld hid hop
  · rw [applyUtxos_other hid, applyUtxos_other hid, hop]
    simp only [consumed_congr hop]

end

/-- The data of a set of transactions to be applied from the tracked set `m`: `cov` is the
covenant of every outpoint, which the transactions report on their outputs and inputs. -/
structure Labelled (t : Templates) (cov : Outpoint → Option Bytes32) (set : List RestTx) : Prop where
  outputs : ∀ rt ∈ set, ∀ i o, rt.tx.outputs[i]? = some o →
    cov (rt.tx.outpoint i) = o.covenant.map CovenantBinding.covenantId
  inputs : ∀ rt ∈ set, rt.inputCovenants = rt.tx.inputs.map fun i => cov i.previousOutpoint
  reported : ∀ rt ∈ set, (∃ i ∈ rt.tx.inputs, ours t (cov i.previousOutpoint) = true) →
    rt.tx.outputs.any (fun o => o.covenant.isSome) = true

/-- Tracked gaps, names and shards are outputs under the registry or price covenant. -/
def Covered (t : Templates) (cov : Outpoint → Option Bytes32) (m : UtxoMap) : Prop :=
  ∀ op s, m.lookup op = some s → s.isOffer = false → ours t (cov op) = true

/-- An offer that one of the transactions creates and one of them spends. -/
def Adrift (env : Env) (t : Templates) (set : List RestTx) (op : Outpoint) (offer : OfferState) :
    Prop :=
  (∃ rt ∈ set, ∃ i o, createdOffer env t rt.tx = some (i, o, offer) ∧ op = rt.tx.outpoint i) ∧
    ∃ rt ∈ set, ∃ input ∈ rt.tx.inputs, input.previousOutpoint = op

section
variable {env : Env} {t : Templates} {cov : Outpoint → Option Bytes32} {set : List RestTx}
variable {rt : RestTx} {m m' : UtxoMap}

theorem createdOffer_output {tx : Tx} {i : ℕ} {o : TxOutput} {offer : OfferState}
    (h : createdOffer env t tx = some (i, o, offer)) :
    tx.outputs[i]? = some o ∧ o.covenant = none := by
  obtain ⟨offer', -, h⟩ := Option.bind_eq_some_iff.mp h
  obtain ⟨⟨o', i'⟩, hfind, heq⟩ := Option.map_eq_some_iff.mp h
  cases heq
  have hp := List.find?_some hfind
  simp only [Bool.and_eq_true, Option.isNone_iff_eq_none] at hp
  exact ⟨List.mem_zipIdx_iff_getElem?.mp (List.mem_of_find?_eq_some hfind), hp.2⟩

theorem isReady_iff (L : Labelled t cov set) (hrt : rt ∈ set) : isReady t m rt = true ↔
    ∀ input ∈ rt.tx.inputs, ours t (cov input.previousOutpoint) = true → input.previousOutpoint ∈ m := by
  unfold isReady
  rw [L.inputs rt hrt, ← List.map_prod_left_eq_zip]
  simp [imp_iff_not_or]

/-- The covenants of gaps, names and shards are no offer's. -/
theorem not_adrift (L : Labelled t cov set) {op : Outpoint} (hours : ours t (cov op) = true)
    {offer : OfferState} : ¬ Adrift env t set op offer := by
  rintro ⟨⟨rt, hrt, i, o, hcreated, rfl⟩, -⟩
  obtain ⟨ho, hnone⟩ := createdOffer_output hcreated
  rw [L.outputs rt hrt i o ho, hnone] at hours
  cases hours

/-- Two tracked sets that agree on the covenants' inputs give the same spends of gaps, names and
shards. -/
theorem held_congr (hm : Covered t cov m) (hm' : Covered t cov m') {tx : Tx}
    (h : ∀ input ∈ tx.inputs, ours t (cov input.previousOutpoint) = true →
      m.lookup input.previousOutpoint = m'.lookup input.previousOutpoint) :
    held (spendsOf t tx m) = held (spendsOf t tx m') := by
  unfold held spendsOf
  rw [List.filter_filterMap, List.filter_filterMap]
  refine List.filterMap_congr fun x hx => ?_
  obtain ⟨input, idx⟩ := x
  have hinput : input ∈ tx.inputs :=
    List.mem_of_getElem? (List.mem_zipIdx_iff_getElem?.mp hx)
  by_cases hours : ours t (cov input.previousOutpoint) = true
  · have hspend : spendOf t m input idx = spendOf t m' input idx := by
      unfold spendOf
      rw [h input hinput hours]
    dsimp only
    rw [hspend]
  · have hnone {m : UtxoMap} (hm : Covered t cov m) :
        (spendOf t m input idx).filter (fun s => !s.tracked.isOffer) = none := by
      rw [Option.filter_eq_none_iff]
      intro s hs
      have hlookup := (spendOf_eq_some.mp hs).2.2.1
      cases hoffer : s.tracked.isOffer with
      | true => simp
      | false => exact absurd (hm _ _ hlookup hoffer) hours
    exact (hnone hm).trans (hnone hm').symm

/-- A handled prediction is placed on an output under the registry or price covenant. -/
theorem carried_covenant (hreg : t.registryId.isSome) (L : Labelled t cov set) (hrt : rt ∈ set)
    (hm : Covered t cov m) {p : Prediction} (hp : p ∈ handled env t (held (spendsOf t rt.tx m)))
    {i : ℕ} (hi : Carries env t rt.tx p i) :
    ∃ o b, rt.tx.outputs[i]? = some o ∧ o.covenant = some b ∧ ours t (some b.covenantId) = true := by
  obtain ⟨rid, hrid⟩ := Option.isSome_iff_exists.mp hreg
  obtain ⟨o, ho, -, hbind⟩ := hi
  have hreported (s : Spend) (hs : s ∈ held (spendsOf t rt.tx m)) :
      rt.tx.outputs.any (fun o => o.covenant.isSome) = true := by
    obtain ⟨hs, hoffer⟩ := mem_held.mp hs
    obtain ⟨input, hget, hop⟩ := spend_input hs
    refine L.reported rt hrt ⟨input, List.mem_of_getElem? hget, ?_⟩
    exact hop ▸ hm _ _ (spend_lookup hs) hoffer
  have hbound (s : Spend) (hs : s ∈ held (spendsOf t rt.tx m)) (id : Bytes32)
      (hid : ours t (some id) = true) (hp : p.bind = some (s.idx, id)) :
      ∃ o b, rt.tx.outputs[i]? = some o ∧ o.covenant = some b ∧ ours t (some b.covenantId) = true := by
    simp only [bindingOk, hp, hreported s hs, Bool.not_true, Bool.false_or, decide_eq_true_eq] at hbind
    exact ⟨o, _, ho, hbind, hid⟩
  have hasked := everyPrediction_asked (handled_subset hp)
  unfold Asked at hasked
  split at hasked
  · obtain ⟨s, hs, hp⟩ := hasked
    exact hbound s hs rid (by simp [ours, hrid]) (by rw [hp, regBind, hrid]; rfl)
  · obtain ⟨s, hs, hp⟩ := hasked
    exact hbound s hs rid (by simp [ours, hrid]) (by rw [hp, regBind, hrid]; rfl)
  · obtain ⟨s, hs, id, hid, hp⟩ := hasked
    exact hbound s hs id (by simp [ours, hid]) hp
  · cases hasked

end

/-- The effect of a candidate on the UTXO map. -/
abbrev stepUtxos (env : Env) (t : Templates) (m : UtxoMap) (rt : RestTx) : UtxoMap :=
  applyUtxos env t rt.tx m

/-- Each transaction of the order is ready where it is applied. -/
abbrev ReadyUtxos (env : Env) (t : Templates) (m : UtxoMap) (order : List RestTx) : Prop :=
  ReadyRun (fun m rt => isReady t m rt = true) (stepUtxos env t) m order

/-- The tracked sets agree but for offers that the transactions create and spend. -/
def SameUnlessAdrift (env : Env) (t : Templates) (set : List RestTx) (m m' : UtxoMap) : Prop :=
  ∀ op, (∀ offer, ¬ Adrift env t set op offer) → m.lookup op = m'.lookup op

/-- No two of the transactions spend the same outpoint. -/
def SpentOnce (set : List RestTx) : Prop :=
  set.Pairwise fun a b => ∀ i ∈ a.tx.inputs, ∀ j ∈ b.tx.inputs,
    i.previousOutpoint ≠ j.previousOutpoint

/-- What holds of the tracked set and the transactions of the set that are still to be applied. -/
structure Outstanding (env : Env) (t : Templates) (cov : Outpoint → Option Bytes32)
    (set : List RestTx) (m : UtxoMap) (pending : List RestTx) : Prop where
  mem : ∀ rt ∈ pending, rt ∈ set
  nodup : (pending.map fun rt => rt.tx.id).Nodup
  fresh : ∀ rt ∈ pending, FreshId m rt.tx
  spentOnce : SpentOnce pending
  covered : Covered t cov m
  adrift : ∀ op offer, Adrift env t set op offer →
    m.lookup op = none ∨ m.lookup op = some (.offer offer)
  transferred : ∀ order rt, (order ++ [rt]).Subperm pending → ReadyUtxos env t m (order ++ [rt]) →
    AcceptsTransferred t rt.tx (run (stepUtxos env t) m order)

section
variable {env : Env} {t : Templates} {cov : Outpoint → Option Bytes32} {set : List RestTx}
variable {a b : RestTx} {pending : List RestTx} {m m' : UtxoMap}

theorem Outstanding.accepts (h : Outstanding env t cov set m (a :: pending))
    (ha : isReady t m a = true) : AcceptsTransferred t a.tx m :=
  h.transferred [] a (List.singleton_subperm_iff.mpr List.mem_cons_self) ⟨ha, trivial⟩

theorem Outstanding.perm {pending' : List RestTx} (hperm : pending.Perm pending')
    (h : Outstanding env t cov set m pending) : Outstanding env t cov set m pending' where
  mem rt hrt := h.mem rt (hperm.mem_iff.mpr hrt)
  nodup := (hperm.map _).nodup_iff.mp h.nodup
  fresh rt hrt := h.fresh rt (hperm.mem_iff.mpr hrt)
  spentOnce := hperm.pairwise h.spentOnce fun hab i hi j hj => (hab j hj i hi).symm
  covered := h.covered
  adrift := h.adrift
  transferred order rt hsub := h.transferred order rt (hsub.trans hperm.symm.subperm)

/-- What a ready transaction inserts at its own outpoints. -/
theorem Outstanding.own (hreg : t.registryId.isSome) (L : Labelled t cov set)
    (h : Outstanding env t cov set m (a :: pending)) (ha : isReady t m a = true) {op : Outpoint}
    {s : Tracked} (hid : op.1 = a.tx.id) (hs : (stepUtxos env t m a).lookup op = some s) :
    ours t (cov op) = true ∨
      ∃ i o offer, createdOffer env t a.tx = some (i, o, offer) ∧ op = a.tx.outpoint i ∧
        s = .offer offer := by
  have hset := h.mem a List.mem_cons_self
  rw [applyUtxos_own hid] at hs
  refine applyWork_handled_induction (I := fun c => c.1.lookup op = some s → _) (h.accepts ha) ?_ ?_ hs
  · intro hs
    unfold marked applyOfferMarker at hs
    split at hs
    · next i o offer hcreated =>
      rw [lookup_insert_of] at hs
      split at hs
      · next hop =>
        cases hs
        exact .inr ⟨i, o, offer, hcreated, hop, rfl⟩
      · exact absurd hid (h.fresh a List.mem_cons_self op (Finmap.mem_of_lookup_eq_some hs))
    · exact absurd hid (h.fresh a List.mem_cons_self op (Finmap.mem_of_lookup_eq_some hs))
  · intro c i p hp hc hi hs
    rw [lookup_insert_of] at hs
    split at hs
    · next hop =>
      obtain ⟨o, b, ho, hb, hours⟩ := carried_covenant hreg L hset h.covered hp hi
      rw [hop, L.outputs a hset i o ho, hb]
      exact .inl hours
    · exact hc hs

/-- The offer that a ready transaction creates stands in the tracked set after it. -/
theorem Outstanding.created (hreg : t.registryId.isSome) (L : Labelled t cov set)
    (h : Outstanding env t cov set m (a :: pending)) (ha : isReady t m a = true) {i : ℕ}
    {o : TxOutput} {offer : OfferState} (hcreated : createdOffer env t a.tx = some (i, o, offer)) :
    (stepUtxos env t m a).lookup (a.tx.outpoint i) = some (.offer offer) := by
  obtain ⟨ho, hnone⟩ := createdOffer_output hcreated
  rw [applyUtxos_own rfl]
  refine applyWork_handled_induction (I := fun c => c.1.lookup (a.tx.outpoint i) = some (.offer offer))
    (h.accepts ha) ?_ ?_
  · simp only [marked, applyOfferMarker, hcreated]
    exact Finmap.lookup_insert _
  · intro c j p hp hc hj
    rw [lookup_insert_of, if_neg]
    · exact hc
    · intro hop
      obtain ⟨o', b, ho', hb, -⟩ :=
        carried_covenant hreg L (h.mem a List.mem_cons_self) h.covered hp hj
      have hi := (List.getElem?_eq_some_iff.mp ho).1
      have hij : i = j := outpoint_injective hi hj.lt hop
      rw [← hij, ho] at ho'
      cases ho'
      rw [hnone] at hb
      cases hb

theorem Outstanding.keep (hreg : t.registryId.isSome) (L : Labelled t cov set)
    (hids : (set.map fun rt => rt.tx.id).Nodup) (h : Outstanding env t cov set m (a :: pending))
    (ha : isReady t m a = true) : Outstanding env t cov set (stepUtxos env t m a) pending where
  mem rt hrt := h.mem rt (List.mem_cons_of_mem a hrt)
  nodup := (List.nodup_cons.mp h.nodup).2
  fresh rt hrt op hop hid := by
    rcases mem_applyUtxos hop with hold | hown
    · exact h.fresh rt (List.mem_cons_of_mem a hrt) op hold hid
    · exact (List.nodup_cons.mp h.nodup).1 (List.mem_map.mpr ⟨rt, hrt, hid.symm.trans hown⟩)
  spentOnce := (List.pairwise_cons.mp h.spentOnce).2
  covered op s hs hoffer := by
    by_cases hid : op.1 = a.tx.id
    · rcases h.own hreg L ha hid hs with hours | ⟨i, o, offer, -, -, rfl⟩
      · exact hours
      · cases hoffer
    · rw [applyUtxos_other hid] at hs
      split at hs
      · cases hs
      · exact h.covered op s hs hoffer
  adrift op offer hadrift := by
    by_cases hid : op.1 = a.tx.id
    · obtain ⟨⟨rt, hrt, i, o, hcreated, rfl⟩, -⟩ := hadrift
      obtain rfl := List.inj_on_of_nodup_map hids hrt (h.mem a List.mem_cons_self) hid
      exact .inr (h.created hreg L ha hcreated)
    · rw [applyUtxos_other hid]
      split
      · exact .inl rfl
      · exact h.adrift op offer hadrift
  transferred order rt hsub hready :=
    h.transferred (a :: order) rt (List.subperm_cons a |>.mpr hsub) ⟨ha, hready⟩

theorem SameUnlessAdrift.ours (L : Labelled t cov set) (h : SameUnlessAdrift env t set m m')
    {op : Outpoint} (hours : ours t (cov op) = true) : m.lookup op = m'.lookup op :=
  h op fun _ => not_adrift L hours

theorem isReady_congr (L : Labelled t cov set) (ha : a ∈ set) (h : SameUnlessAdrift env t set m m')
    (hready : isReady t m a = true) : isReady t m' a = true := by
  rw [isReady_iff L ha] at hready ⊢
  intro input hinput hours
  have hmem := hready input hinput hours
  rw [Finmap.mem_iff] at hmem ⊢
  rwa [← h.ours L hours]

theorem Outstanding.step_congr (L : Labelled t cov set) (hsame : SameUnlessAdrift env t set m m')
    (h : Outstanding env t cov set m (a :: pending)) (h' : Outstanding env t cov set m' (a :: pending))
    (hready : isReady t m a = true) :
    SameUnlessAdrift env t set (stepUtxos env t m a) (stepUtxos env t m' a) := by
  have hready' := isReady_congr L (h.mem a List.mem_cons_self) hsame hready
  have hheld : held (spendsOf t a.tx m) = held (spendsOf t a.tx m') :=
    held_congr h.covered h'.covered fun _ _ hours => hsame.ours L hours
  intro op hop
  exact lookup_step_congr (h.accepts hready) (h'.accepts hready') hheld (hsame op hop)

/-- What another transaction of the set tracks or waits for is left alone. -/
theorem Outstanding.input_untouched (h : Outstanding env t cov set m (a :: b :: pending))
    {input : TxInput} (hinput : input ∈ b.tx.inputs) (hmem : input.previousOutpoint ∈ m) :
    (stepUtxos env t m a).lookup input.previousOutpoint = m.lookup input.previousOutpoint := by
  refine lookup_untouched (h.fresh a List.mem_cons_self _ hmem) fun i hi => ?_
  exact (List.pairwise_cons.mp h.spentOnce).1 b List.mem_cons_self i hi input hinput

theorem Outstanding.persist (L : Labelled t cov set)
    (h : Outstanding env t cov set m (a :: b :: pending)) (hb : isReady t m b = true) :
    isReady t (stepUtxos env t m a) b = true := by
  have hset := h.mem b (List.mem_cons_of_mem a List.mem_cons_self)
  rw [isReady_iff L hset] at hb ⊢
  intro input hinput hours
  have hmem := hb input hinput hours
  rw [Finmap.mem_iff, h.input_untouched hinput hmem]
  exact Finmap.mem_iff.mp hmem

/-- At the outpoints of `b` it does not matter whether `a` went first. -/
theorem Outstanding.swap_own (hreg : t.registryId.isSome) (L : Labelled t cov set)
    (hids : (set.map fun rt => rt.tx.id).Nodup)
    (h : Outstanding env t cov set m (a :: b :: pending)) (ha : isReady t m a = true)
    (hb : isReady t m b = true) {op : Outpoint} (hid : op.1 = b.tx.id)
    (hop : ∀ offer, ¬ Adrift env t set op offer) :
    (stepUtxos env t (stepUtxos env t m a) b).lookup op =
      (stepUtxos env t (stepUtxos env t m b) a).lookup op := by
  have hba : Outstanding env t cov set m (b :: a :: pending) := h.perm (List.Perm.swap b a _)
  have hkeep := h.keep hreg L hids ha
  have hne : op.1 ≠ a.tx.id := fun heq =>
    (List.nodup_cons.mp h.nodup).1 (List.mem_map.mpr ⟨b, List.mem_cons_self, hid.symm.trans heq⟩)
  have hnone : m.lookup op = none :=
    Finmap.lookup_eq_none.mpr fun hmem => hba.fresh b List.mem_cons_self op hmem hid
  have hheld : held (spendsOf t b.tx (stepUtxos env t m a)) = held (spendsOf t b.tx m) := by
    refine held_congr hkeep.covered h.covered fun input hinput hours => ?_
    exact h.input_untouched hinput
      ((isReady_iff L (hba.mem b List.mem_cons_self)).mp hb input hinput hours)
  have hafter : (stepUtxos env t m a).lookup op = m.lookup op := by
    rw [applyUtxos_other hne, hnone, ite_self]
  have hown : (stepUtxos env t (stepUtxos env t m a) b).lookup op = (stepUtxos env t m b).lookup op :=
    own_determined (hkeep.accepts (h.persist L hb)) (hba.accepts hb) hheld hid hafter
  rw [hown]
  by_cases hspent : ∃ input ∈ a.tx.inputs, input.previousOutpoint = op
  · -- `a` is ready without this output, so only an offer could have been put there
    obtain ⟨input, hinput, rfl⟩ := hspent
    have huntracked : (stepUtxos env t m b).lookup input.previousOutpoint = none := by
      by_contra hsome
      obtain ⟨s, hs⟩ := Option.ne_none_iff_exists'.mp hsome
      rcases hba.own hreg L hb hid hs with hours | ⟨i, o, offer, hcreated, hi, rfl⟩
      · have hmem := (isReady_iff L (h.mem a List.mem_cons_self)).mp ha input hinput hours
        exact hba.fresh b List.mem_cons_self _ hmem hid
      · exact hop offer ⟨⟨b, hba.mem b List.mem_cons_self, i, o, hcreated, hi⟩,
          a, h.mem a List.mem_cons_self, input, hinput, rfl⟩
    rw [huntracked, applyUtxos_other hne, huntracked, ite_self]
  · refine (lookup_untouched hne fun input hinput heq => hspent ⟨input, hinput, heq⟩).symm

theorem Outstanding.swap (hreg : t.registryId.isSome) (L : Labelled t cov set)
    (hids : (set.map fun rt => rt.tx.id).Nodup)
    (h : Outstanding env t cov set m (a :: b :: pending)) (ha : isReady t m a = true)
    (hb : isReady t m b = true) :
    SameUnlessAdrift env t set (stepUtxos env t (stepUtxos env t m a) b)
      (stepUtxos env t (stepUtxos env t m b) a) := by
  have hba : Outstanding env t cov set m (b :: a :: pending) := h.perm (List.Perm.swap b a _)
  intro op hop
  by_cases hb' : op.1 = b.tx.id
  · exact h.swap_own hreg L hids ha hb hb' hop
  by_cases ha' : op.1 = a.tx.id
  · exact (hba.swap_own hreg L hids hb ha ha' hop).symm
  have hfar {x y : RestTx} (h : Outstanding env t cov set m (x :: y :: pending)) (hx : op.1 ≠ x.tx.id)
      (hy : op.1 ≠ y.tx.id) : (stepUtxos env t (stepUtxos env t m x) y).lookup op =
      if op ∈ consumed t x.tx m ∨ op ∈ consumed t y.tx m then none else m.lookup op := by
    rw [applyUtxos_other hy, applyUtxos_other hx]
    by_cases hxop : op ∈ consumed t x.tx m
    · simp [hxop]
    · have hsame : (stepUtxos env t m x).lookup op = m.lookup op := by
        rw [applyUtxos_other hx, if_neg hxop]
      simp only [consumed_congr hsame, hxop, if_false, false_or]
  rw [hfar h ha' hb', hfar hba hb' ha']
  simp only [or_comm]

theorem gated (hreg : t.registryId.isSome) (L : Labelled t cov set)
    (hids : (set.map fun rt => rt.tx.id).Nodup) :
    Gated (fun m rt => isReady t m rt = true) (stepUtxos env t) (SameUnlessAdrift env t set)
      (Outstanding env t cov set) where
  equiv := ⟨fun _ _ _ => rfl, fun h op hop => (h op hop).symm,
    fun h h' op hop => (h op hop).trans (h' op hop)⟩
  perm hperm h := h.perm hperm
  keep h ha := h.keep hreg L hids ha
  ready_congr hsame h _ ha := isReady_congr L (h.mem _ List.mem_cons_self) hsame ha
  step_congr hsame h h' ha := h.step_congr L hsame h' ha
  persist h _ hb := h.persist L hb
  swap h ha hb := h.swap hreg L hids ha hb

end

/-- Each transaction of the order has all its registry and price inputs tracked where it is
applied. -/
def ReadyOrder (env : Env) (t : Templates) (r : Registry) (order : List RestTx) : Prop :=
  ReadyRun (fun r rt => isReady t r.utxos rt = true) (fun r rt => (applyTx env t rt.tx r).1) r order

/-- In every ready order of transactions of the set, an offer accepted goes with a transfer. -/
def TransferredRuns (env : Env) (t : Templates) (r : Registry) (set : List RestTx) : Prop :=
  ∀ order rt, (order ++ [rt]).Subperm set → ReadyOrder env t r (order ++ [rt]) →
    AcceptsTransferred t rt.tx (applyAll env t r (order.map RestTx.tx)).utxos

/-- Transactions of a v3 registry, none of them applied yet, with the covenants they report. -/
structure WalkSet (env : Env) (t : Templates) (cov : Outpoint → Option Bytes32) (r : Registry)
    (set : List RestTx) : Prop where
  v3 : t.registryId.isSome
  ids : (set.map fun rt => rt.tx.id).Nodup
  fresh : ∀ rt ∈ set, FreshId r.utxos rt.tx
  spentOnce : SpentOnce set
  labelled : Labelled t cov set
  covered : Covered t cov r.utxos
  transferred : TransferredRuns env t r set

/-- The tracked sets are equal but for offers that the transactions create and spend, which may be
tracked in one of them only. -/
def SameButOffers (env : Env) (t : Templates) (set : List RestTx) (m m' : UtxoMap) : Prop :=
  ∀ op, m.lookup op = m'.lookup op ∨ ∃ offer, Adrift env t set op offer ∧
    (m.lookup op = some (.offer offer) ∧ m'.lookup op = none ∨
      m.lookup op = none ∧ m'.lookup op = some (.offer offer))

section
variable {env : Env} {t : Templates} {cov : Outpoint → Option Bytes32} {set : List RestTx}
variable {r : Registry}

theorem run_applyAll (r : Registry) (order : List RestTx) :
    run (fun r rt => (applyTx env t rt.tx r).1) r order = applyAll env t r (order.map RestTx.tx) := by
  rw [run, applyAll, List.foldl_map]

theorem applyTx_step (r : Registry) (rt : RestTx) :
    (applyTx env t rt.tx r).1.utxos = stepUtxos env t r.utxos rt := applyTx_utxos

theorem applyRest_step (w : Walk) (rt : RestTx) :
    (applyRest env t w rt).registry.utxos = stepUtxos env t w.registry.utxos rt := applyTx_utxos

theorem applyAll_utxos (r : Registry) (order : List RestTx) :
    (applyAll env t r (order.map RestTx.tx)).utxos = run (stepUtxos env t) r.utxos order := by
  rw [← run_applyAll]
  exact run_comap applyTx_step r order

theorem readyOrder_iff {order : List RestTx} :
    ReadyOrder env t r order ↔ ReadyUtxos env t r.utxos order :=
  readyRun_comap (fun m rt => isReady t m rt = true) applyTx_step

theorem readyWalk_iff {w : Walk} {order : List RestTx} :
    ReadyRun (fun w rt => isReady t w.registry.utxos rt = true) (applyRest env t) w order ↔
      ReadyOrder env t w.registry order :=
  (readyRun_comap (fun m rt => isReady t m rt = true) applyRest_step).trans readyOrder_iff.symm

theorem WalkSet.outstanding (h : WalkSet env t cov r set) :
    Outstanding env t cov set r.utxos set where
  mem _ hrt := hrt
  nodup := h.ids
  fresh := h.fresh
  spentOnce := h.spentOnce
  covered := h.covered
  adrift op offer hadrift := by
    obtain ⟨⟨rt, hrt, i, o, -, rfl⟩, -⟩ := hadrift
    exact .inl (Finmap.lookup_eq_none.mpr fun hmem => h.fresh rt hrt _ hmem rfl)
  transferred order rt hsub hready := by
    rw [← applyAll_utxos]
    exact h.transferred order rt hsub (readyOrder_iff.mpr hready)

/-- The invariant at the end of a ready order. -/
theorem WalkSet.run_outstanding (h : WalkSet env t cov r set) {order rest : List RestTx}
    {m : UtxoMap} (hm : Outstanding env t cov set m (order ++ rest))
    (hready : ReadyUtxos env t m order) :
    Outstanding env t cov set (run (stepUtxos env t) m order) rest := by
  induction order generalizing m with
  | nil => exact hm
  | cons rt order ih => exact ih (hm.keep h.v3 h.labelled h.ids hready.1) hready.2

theorem sameButOffers {m m' : UtxoMap} (hm : Outstanding env t cov set m [])
    (hm' : Outstanding env t cov set m' []) (hsame : SameUnlessAdrift env t set m m') :
    SameButOffers env t set m m' := by
  intro op
  by_cases hop : ∃ offer, Adrift env t set op offer
  · obtain ⟨offer, hadrift⟩ := hop
    rcases hm.adrift op offer hadrift with h1 | h1 <;>
      rcases hm'.adrift op offer hadrift with h2 | h2
    · exact .inl (h1.trans h2.symm)
    · exact .inr ⟨offer, hadrift, .inr ⟨h1, h2⟩⟩
    · exact .inr ⟨offer, hadrift, .inl ⟨h1, h2⟩⟩
    · exact .inl (h1.trans h2.symm)
  · exact .inl (hsame op fun offer h => hop ⟨offer, h⟩)

theorem WalkSet.orders_agree (h : WalkSet env t cov r set) {order order' : List RestTx}
    (hperm : order.Perm set) (hperm' : order'.Perm set) (hready : ReadyOrder env t r order)
    (hready' : ReadyOrder env t r order') :
    SameButOffers env t set (applyAll env t r (order.map RestTx.tx)).utxos
      (applyAll env t r (order'.map RestTx.tx)).utxos := by
  rw [readyOrder_iff] at hready hready'
  have hstart {order : List RestTx} (hperm : order.Perm set) :
      Outstanding env t cov set r.utxos (order ++ []) := by
    rw [List.append_nil]
    exact h.outstanding.perm hperm.symm
  rw [applyAll_utxos, applyAll_utxos]
  refine sameButOffers (h.run_outstanding (hstart hperm) hready)
    (h.run_outstanding (hstart hperm') hready') ?_
  exact (gated h.v3 h.labelled h.ids).confluent (h.outstanding.perm hperm'.symm)
    (hperm.trans hperm'.symm) hready hready'

theorem run_applyRest (w : Walk) (done : List RestTx) :
    (run (applyRest env t) w done).registry = applyAll env t w.registry (done.map RestTx.tx) ∧
      (run (applyRest env t) w done).report.applied = w.report.applied ++ done.map RestTx.tx := by
  induction done generalizing w with
  | nil => exact ⟨rfl, (List.append_nil _).symm⟩
  | cons rt done ih =>
    obtain ⟨hregistry, happlied⟩ := ih (applyRest env t w rt)
    exact ⟨hregistry, happlied.trans (List.append_assoc ..)⟩

/-- The loop over the candidates ends, having applied some of them, each once, in a ready order; and
all of them where the chain's order was ready. -/
theorem WalkSet.loop_agrees (h : WalkSet env t cov r set) (report : Report) :
    ∃ done, (done ++ (applyCandidates env t ⟨r, report⟩ set).2).Perm set ∧
      ReadyOrder env t r done ∧
      (applyCandidates env t ⟨r, report⟩ set).1.report.applied =
        report.applied ++ done.map RestTx.tx ∧
      (applyCandidates env t ⟨r, report⟩ set).1.registry =
        applyAll env t r (done.map RestTx.tx) ∧
      ∀ chain, chain.Perm set → ReadyOrder env t r chain →
        (applyCandidates env t ⟨r, report⟩ set).2 = [] ∧
        SameButOffers env t set (applyCandidates env t ⟨r, report⟩ set).1.registry.utxos
          (applyAll env t r (chain.map RestTx.tx)).utxos := by
  have hsorted := List.mergeSort_perm set acceptingLe
  obtain ⟨done, rest, hout, hperm, hdone, -⟩ :=
    passes_spec (fun w rt => isReady t w.registry.utxos rt) (applyRest env t) ⟨r, report⟩
      (set.mergeSort acceptingLe)
  have hresult : applyCandidates env t ⟨r, report⟩ set =
      (run (applyRest env t) ⟨r, report⟩ done, rest) := hout
  obtain ⟨hregistry, happlied⟩ := @run_applyRest env t ⟨r, report⟩ done
  have hready : ReadyOrder env t r done := readyWalk_iff.mp hdone
  rw [hresult]
  refine ⟨done, hperm.trans hsorted, hready, happlied, hregistry, fun chain hchain horder => ?_⟩
  have G := (gated h.v3 h.labelled h.ids).comap (fun w : Walk => w.registry.utxos)
    (@applyRest_step env t)
  have hwalk : ReadyRun (fun w rt => isReady t w.registry.utxos rt = true) (applyRest env t)
      ⟨r, report⟩ chain := readyWalk_iff.mpr horder
  have hnil := (G.passes_complete (h.outstanding.perm hchain.symm) (hsorted.trans hchain.symm)
    hwalk).1
  have hrest : rest = [] := by rwa [hout] at hnil
  refine ⟨hrest, ?_⟩
  rw [hregistry]
  refine h.orders_agree ?_ hchain hready horder
  rw [hrest, List.append_nil] at hperm
  exact hperm.trans hsorted

/-- No script of the transaction calls the accept of an offer. -/
def neverAccepts (t : Templates) (tx : Tx) : Bool :=
  tx.inputs.all fun input => (decodeSigScript input.signatureScript).all fun sig =>
    t.entry .offer sig.dispatchTag ≠ some .offerAccept

theorem transferredRuns_of_neverAccepts (h : ∀ rt ∈ set, neverAccepts t rt.tx = true) :
    TransferredRuns env t r set := by
  intro order rt hsub _ haccept
  obtain ⟨s, hs, hentry⟩ := List.any_eq_true.mp haccept
  obtain ⟨input, hget, hspend⟩ := mem_spendsOf.mp hs
  obtain ⟨-, -, -, hsig, he⟩ := spendOf_eq_some.mp hspend
  have hcheck := List.all_eq_true.mp (h rt (hsub.subset (by simp))) input (List.mem_of_getElem? hget)
  rw [← spend_contract hs, of_decide_eq_true hentry] at he
  rw [hsig] at hcheck
  exact absurd he (of_decide_eq_true hcheck)

/-- Any two ready orders of the transactions end with the same tracked set, but for offers that they
both create and spend. The loop of the walk applies each transaction at most once; where the chain's
order is ready it applies them all, and ends with that tracked set too. -/
theorem rebuild_order_independent (h : WalkSet env t cov r set) :
    (∀ order order', order.Perm set → order'.Perm set → ReadyOrder env t r order →
      ReadyOrder env t r order' →
      SameButOffers env t set (applyAll env t r (order.map RestTx.tx)).utxos
        (applyAll env t r (order'.map RestTx.tx)).utxos) ∧
    ∀ report, ∃ done, (done ++ (applyCandidates env t ⟨r, report⟩ set).2).Perm set ∧
      ReadyOrder env t r done ∧
      (applyCandidates env t ⟨r, report⟩ set).1.report.applied =
        report.applied ++ done.map RestTx.tx ∧
      (applyCandidates env t ⟨r, report⟩ set).1.registry =
        applyAll env t r (done.map RestTx.tx) ∧
      ∀ chain, chain.Perm set → ReadyOrder env t r chain →
        (applyCandidates env t ⟨r, report⟩ set).2 = [] ∧
        SameButOffers env t set (applyCandidates env t ⟨r, report⟩ set).1.registry.utxos
          (applyAll env t r (chain.map RestTx.tx)).utxos :=
  ⟨fun _ _ => h.orders_agree, h.loop_agrees⟩

end

section
open NamesSample

/-- The transaction with every output under the registry covenant, its inputs taken from there. -/
def bound (tx : Tx) : RestTx where
  tx := { tx with
    outputs := tx.outputs.map fun o => { o with covenant := some ⟨0, registryCovenant⟩ }
    outputs_le := by simpa using tx.outputs_le }
  inputCovenants := tx.inputs.map fun _ => some registryCovenant

def aliceCovenants (op : Outpoint) : Option Bytes32 :=
  if op = genesis ∨ op.1 = fill 0x11 ∨ op.1 = fill 0x44 then some registryCovenant else none

theorem alice_outputs : ∀ rt ∈ [bound transferAlice, bound registerAlice],
    ∀ x ∈ rt.tx.outputs.zipIdx,
      aliceCovenants (rt.tx.outpoint x.2) = x.1.covenant.map CovenantBinding.covenantId := by
  decide +kernel

theorem alice_walkSet : WalkSet env boundTemplates aliceCovenants seeded
    [bound transferAlice, bound registerAlice] where
  v3 := rfl
  ids := by decide
  fresh := by decide +kernel
  spentOnce := by unfold SpentOnce; decide +kernel
  labelled :=
    { outputs := fun rt hrt i o ho =>
        alice_outputs rt hrt (o, i) (List.mem_zipIdx_iff_getElem?.mpr ho)
      inputs := by decide +kernel
      reported := by decide +kernel }
  covered := by
    intro op s hs _
    rw [seeded, Registry.seedGenesis, Registry.new, lookup_insert_of] at hs
    split at hs
    · next hop => simp [hop, ours, boundTemplates, aliceCovenants]
    · cases hs
  transferred := transferredRuns_of_neverAccepts (by decide +kernel)

/-- The walk is shown the transfer of `alice` before her registration. -/
theorem alice_rebuilt :
    (applyCandidates env boundTemplates ⟨seeded, ⟨[], []⟩⟩
        [bound transferAlice, bound registerAlice]).2 = [] ∧
      SameButOffers env boundTemplates [bound transferAlice, bound registerAlice]
        (applyCandidates env boundTemplates ⟨seeded, ⟨[], []⟩⟩
          [bound transferAlice, bound registerAlice]).1.registry.utxos
        (applyAll env boundTemplates seeded
          ([bound registerAlice, bound transferAlice].map RestTx.tx)).utxos := by
  obtain ⟨done, -, -, -, -, hchain⟩ := (rebuild_order_independent alice_walkSet).2 ⟨[], []⟩
  exact hchain [bound registerAlice, bound transferAlice] (List.Perm.swap ..)
    ⟨by decide +kernel, by decide +kernel, trivial⟩

def asRest (tx : Tx) : RestTx := ⟨tx, tx.inputs.map fun _ => none⟩

/-- An offer made and withdrawn is gone in one order and tracked in the other: its output is under
no covenant, so the withdrawal does not wait for it. -/
theorem offer_order_matters :
    ¬ ∀ (env : Env) (t : Templates) (r : Registry) (order order' : List RestTx),
      t.registryId.isSome → SpentOnce order → TransferredRuns env t r order → order.Perm order' →
      ReadyOrder env t r order → ReadyOrder env t r order' →
      (applyAll env t r (order.map RestTx.tx)).utxos =
        (applyAll env t r (order'.map RestTx.tx)).utxos := by
  intro h
  have hsame := h env boundTemplates seeded [asRest makeOffer, asRest withdrawOffer]
    [asRest withdrawOffer, asRest makeOffer] rfl (by unfold SpentOnce; decide +kernel)
    (transferredRuns_of_neverAccepts (by decide +kernel)) (List.Perm.swap ..)
    ⟨by decide +kernel, by decide +kernel, trivial⟩ ⟨by decide +kernel, by decide +kernel, trivial⟩
  have hlookup := congrArg (Finmap.lookup (fill 0x22, 0)) hsame
  revert hlookup
  decide +kernel

end

end KaChatIndexer.NamesConfluence

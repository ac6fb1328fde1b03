import KaChatIndexer.NamesPartition

/-!
# The price record

Registry v3 keeps its prices in a fixed number of shards, each with the whole record. A use rewrites
its own shard as it was; an update rewrites every shard of the transaction, and the follows that come
with it write nothing.
-/
namespace KaChatIndexer.NamesPrices
open ByteStrings NamesCodec NamesState NamesEnv NamesTransition NamesTemplates NamesRegistry
open NamesApply NamesPredictions NamesStep NamesReorg NamesShapes NamesPartition FinmapPatch

/-- Exactly one live shard per number below `K`, all with one authority and one price list. -/
structure PriceRecord (K : ℕ) (utxos : UtxoMap) (authority : Bytes32)
    (prices : List.Vector Int64 5) : Prop where
  agrees : ∀ op p, utxos.lookup op = some (.shard p) →
    p.authority = authority ∧ p.prices = prices ∧ ∃ n < K, p.shard.toInt = n
  one : ∀ n : ℕ, n < K → ∃! op, ∃ p, utxos.lookup op = some (.shard p) ∧ p.shard.toInt = n

section
variable (env : Env) (t : Templates) (tx : Tx) (utxos : UtxoMap)

/-- An output of the transaction carries the shard, bound to the input under the price covenant. -/
def BoundOutput (priceId : Bytes32) (idx : ℕ) (p : PriceState) : Prop :=
  ∃ o ∈ tx.outputs, o.scriptPublicKey = t.priceSpk env p ∧
    o.covenant = some ⟨UInt16.ofNat idx, priceId⟩

/-- Every shard is spent by a use, with an output of the same state. -/
def UsesContinued (priceId : Bytes32) : Prop :=
  ∀ s ∈ spendsOf t tx utxos, ∀ p, s.tracked = .shard p →
    s.entry = .priceUse ∧ BoundOutput env t tx priceId s.idx p

/-- Every live shard is spent, one by an update and the others by follows, each with an output of the
new authority and prices. -/
def UpdateContinued (priceId : Bytes32) : Prop :=
  ∃ s₀ ∈ spendsOf t tx utxos, ∃ args, s₀.entry = .priceUpdate ∧ updateArgs s₀.sig = some args ∧
    (∀ s ∈ spendsOf t tx utxos, ∀ p, s.tracked = .shard p → (s = s₀ ∨ s.entry = .priceFollow) ∧
      BoundOutput env t tx priceId s.idx ⟨p.shard, args.1, args.2⟩) ∧
    ∀ op p, utxos.lookup op = some (.shard p) → op ∈ consumed t tx utxos

/-- No outpoint is spent twice, and every spent shard has its continuation. -/
structure ShardsContinued (priceId : Bytes32) : Prop where
  inputs : (tx.inputs.map TxInput.previousOutpoint).Nodup
  outputs : UsesContinued env t tx utxos priceId ∨ UpdateContinued env t tx utxos priceId

end

section
variable {env : Env} {t : Templates} {tx : Tx} {utxos : UtxoMap} {priceId : Bytes32}

theorem mem_shardIns {spends : List Spend} {j : ℕ × PriceState} :
    j ∈ shardIns spends ↔ ∃ s ∈ spends, s.idx = j.1 ∧ s.tracked = .shard j.2 := by
  simp only [shardIns, List.mem_filterMap]
  constructor
  · rintro ⟨s, hs, h⟩
    split at h
    · next p hp =>
      cases h
      exact ⟨s, hs, rfl, hp⟩
    · cases h
  · rintro ⟨s, hs, hidx, htracked⟩
    exact ⟨s, hs, by simp [htracked, hidx]⟩

theorem filterMap_sublist {α β γ : Type*} {f : α → Option β} {g : β → γ} {h : α → γ}
    (hf : ∀ a b, f a = some b → g b = h a) (l : List α) :
    ((l.filterMap f).map g).Sublist (l.map h) := by
  induction l with
  | nil => exact .slnil
  | cons a l ih =>
    cases hfa : f a with
    | none =>
      rw [List.filterMap_cons_none hfa]
      exact ih.cons _
    | some b =>
      rw [List.filterMap_cons_some hfa, List.map_cons, List.map_cons, hf a b hfa]
      exact ih.cons_cons _

theorem spendsOf_idx_nodup : ((spendsOf t tx utxos).map Spend.idx).Nodup := by
  have hidx : ∀ x s, spendOf t utxos x.1 x.2 = some s → s.idx = (x : TxInput × ℕ).2 :=
    fun x s h => (spendOf_eq_some.mp h).1
  have hsub := filterMap_sublist hidx tx.inputs.zipIdx
  rw [List.zipIdx_map_snd] at hsub
  exact hsub.nodup List.nodup_range'

theorem shardIns_idx_nodup : ((shardIns (spendsOf t tx utxos)).map Prod.fst).Nodup := by
  refine (filterMap_sublist (h := Spend.idx) (fun s j h => ?_) _).nodup spendsOf_idx_nodup
  split at h
  · cases h
    rfl
  · cases h

theorem spend_eq_of_idx {s s' : Spend} (hs : s ∈ spendsOf t tx utxos)
    (hs' : s' ∈ spendsOf t tx utxos) (h : s.idx = s'.idx) : s = s' :=
  List.inj_on_of_nodup_map spendsOf_idx_nodup hs hs' h

/-- With distinct inputs, the outpoint tells the spend. -/
theorem spend_eq_of_outpoint (hinputs : (tx.inputs.map TxInput.previousOutpoint).Nodup) {s s' : Spend}
    (hs : s ∈ spendsOf t tx utxos) (hs' : s' ∈ spendsOf t tx utxos)
    (h : s.outpoint = s'.outpoint) : s = s' := by
  obtain ⟨i, hi, hop⟩ := spend_input hs
  obtain ⟨i', hi', hop'⟩ := spend_input hs'
  have hget : (tx.inputs.map TxInput.previousOutpoint)[s.idx]? = some s.outpoint := by simp [hi, hop]
  have hget' : (tx.inputs.map TxInput.previousOutpoint)[s'.idx]? = some s'.outpoint := by
    simp [hi', hop']
  have hlt := (List.getElem?_eq_some_iff.mp hget).1
  exact spend_eq_of_idx hs hs' ((List.getElem?_inj hlt hinputs).mp (hget.trans (h ▸ hget'.symm)))

theorem spend_idx_lt {s : Spend} (hs : s ∈ spendsOf t tx utxos) : s.idx < 2 ^ 16 := by
  obtain ⟨i, hi, -⟩ := spend_input hs
  have hlt := (List.getElem?_eq_some_iff.mp hi).1
  have hle := tx.inputs_le
  omega

/-- What is asked for a spent shard that goes on with the authority and prices. -/
def shardPrediction (priceId authority : Bytes32) (prices : List.Vector Int64 5)
    (j : ℕ × PriceState) : Prediction :=
  ⟨some (j.1, priceId), .shard ⟨j.2.shard, authority, prices⟩⟩

/-- The output is bound to the input under the price covenant. -/
def BoundTo (tx : Tx) (priceId : Bytes32) (i idx : ℕ) : Prop :=
  ∃ o, tx.outputs[i]? = some o ∧ o.covenant = some ⟨UInt16.ofNat idx, priceId⟩

theorem BoundTo.idx {i idx idx' : ℕ} (h : BoundTo tx priceId i idx) (h' : BoundTo tx priceId i idx')
    (hlt : idx < 2 ^ 16) (hlt' : idx' < 2 ^ 16) : idx = idx' := by
  obtain ⟨o, hget, hbound⟩ := h
  obtain ⟨o', hget', hbound'⟩ := h'
  rw [hget] at hget'
  cases hget'
  rw [hbound] at hbound'
  have hn := congrArg (fun b : Option CovenantBinding => b.map fun b => b.authorizingInput.toNat) hbound'
  simp only [Option.map_some, Option.some.injEq, UInt16.toNat_ofNat'] at hn
  omega

/-- A bound output is found, and what is found is bound. -/
theorem find_bound {used : List ℕ} {idx : ℕ} {p : PriceState}
    (hout : BoundOutput env t tx priceId idx p) (hfree : ∀ i ∈ used, ¬ BoundTo tx priceId i idx) :
    ∃ i, findOutput tx (t.priceSpk env p) used (some (idx, priceId)) = some i ∧
      BoundTo tx priceId i idx := by
  obtain ⟨o, ho, hspk, hbound⟩ := hout
  have hknown : tx.outputs.any (fun o => o.covenant.isSome) = true :=
    List.any_eq_true.mpr ⟨o, ho, by simp [hbound]⟩
  have hok (o : TxOutput) : bindingOk tx (some (idx, priceId)) o = true ↔
      o.covenant = some ⟨UInt16.ofNat idx, priceId⟩ := by simp [bindingOk, hknown]
  cases hfind : findOutput tx (t.priceSpk env p) used (some (idx, priceId)) with
  | none =>
    obtain ⟨k, hk⟩ := List.getElem?_of_mem ho
    exact absurd ⟨o, hk, hbound⟩ (hfree k (findOutput_none hfind hk hspk ((hok o).mpr hbound)))
  | some i =>
    obtain ⟨-, o', hget, -, hbind⟩ := findOutput_some hfind
    exact ⟨i, rfl, o', hget, (hok o').mp hbind⟩

/-- Every spent shard finds an output of its own. -/
theorem place_shards {ins : List (ℕ × PriceState)} {authority : Bytes32}
    {prices : List.Vector Int64 5} (hnodup : (ins.map Prod.fst).Nodup)
    (hlt : ∀ j ∈ ins, j.1 < 2 ^ 16)
    (hout : ∀ j ∈ ins, BoundOutput env t tx priceId j.1 ⟨j.2.shard, authority, prices⟩) (c : Claims)
    (hfree : ∀ i ∈ c.2, ∀ j ∈ ins, ¬ BoundTo tx priceId i j.1) :
    ∃ g : ℕ → ℕ, (ins.map (shardPrediction priceId authority prices)).foldl (tryPlace env t tx) c =
      (insertAll (ins.map fun j => (tx.outpoint (g j.1), .shard ⟨j.2.shard, authority, prices⟩)) c.1,
        c.2 ++ ins.map fun j => g j.1) ∧ ∀ j ∈ ins, BoundTo tx priceId (g j.1) j.1 := by
  induction ins generalizing c with
  | nil => exact ⟨id, by simp [insertAll], by simp⟩
  | cons j ins ih =>
    rw [List.map_cons, List.nodup_cons] at hnodup
    obtain ⟨i, hfind, hbound⟩ := find_bound (hout j List.mem_cons_self)
      fun k hk => hfree k hk j List.mem_cons_self
    have hstep : tryPlace env t tx c (shardPrediction priceId authority prices j) =
        (c.1.insert (tx.outpoint i) (.shard ⟨j.2.shard, authority, prices⟩), c.2 ++ [i]) := by
      simp only [tryPlace, shardPrediction, Templates.trackedSpk, hfind]
    have hne : ∀ k ∈ ins, k.1 ≠ j.1 := fun k hk heq => hnodup.1 (heq ▸ List.mem_map_of_mem hk)
    obtain ⟨g, hfold, hg⟩ := ih hnodup.2 (fun k hk => hlt k (List.mem_cons_of_mem j hk))
      (fun k hk => hout k (List.mem_cons_of_mem j hk))
      (c.1.insert (tx.outpoint i) (.shard ⟨j.2.shard, authority, prices⟩), c.2 ++ [i])
      (by
        intro l hl k hk
        rcases List.mem_append.mp hl with hl | hl
        · exact hfree l hl k (List.mem_cons_of_mem j hk)
        · obtain rfl := List.mem_singleton.mp hl
          intro hkbound
          exact hne k hk (hkbound.idx hbound (hlt k (List.mem_cons_of_mem j hk))
            (hlt j List.mem_cons_self)))
    have hsame : ∀ k ∈ ins, Function.update g j.1 i k.1 = g k.1 :=
      fun k hk => Function.update_of_ne (hne k hk) ..
    refine ⟨Function.update g j.1 i, ?_, ?_⟩
    · rw [List.map_cons, List.foldl_cons, hstep, hfold]
      have hoff : ins.map (fun k => Function.update g j.1 i k.1) = ins.map fun k => g k.1 :=
        List.map_congr_left hsame
      have hentries : ins.map (fun k => (tx.outpoint (Function.update g j.1 i k.1),
            Tracked.shard ⟨k.2.shard, authority, prices⟩)) =
          ins.map fun k => (tx.outpoint (g k.1), Tracked.shard ⟨k.2.shard, authority, prices⟩) :=
        List.map_congr_left fun k hk => by rw [hsame k hk]
      simp only [List.map_cons, Function.update_self, hoff, hentries, List.append_assoc,
        List.singleton_append]
      rfl
    · intro k hk
      rcases List.mem_cons.mp hk with rfl | hk
      · rwa [Function.update_self]
      · rw [hsame k hk]
        exact hg k hk

/-- After the shards, only gaps and names are asked for. -/
theorem branch_core {spends : List Spend} {a : Action} (ha : a ∈ branchActions env t spends)
    {m : UtxoMap} {p : Prediction} (hp : a m = some p) : isCore p.state = true := by
  have hsure {ps : List Prediction} (hps : ∀ q ∈ ps, isCore q.state = true) (ha : a ∈ ps.map sure) :
      isCore p.state = true := by
    obtain ⟨q, hq, rfl⟩ := List.mem_map.mp ha
    cases hp
    exact hps _ hq
  have hsplit {auth : ℕ} {split : GapState × GapState × NameState} :
      ∀ q ∈ splitPredictions t auth split, isCore q.state = true := by
    simp [splitPredictions, isCore]
  unfold branchActions at ha
  split_ifs at ha
  · refine hsure (fun q hq => ?_) ha
    unfold exitPredictions at hq
    split at hq
    · obtain rfl := List.mem_singleton.mp hq
      rfl
    · simp at hq
  · refine hsure (fun q hq => ?_) ha
    obtain ⟨s, -, hq⟩ := List.mem_flatMap.mp hq
    unfold registerPredictions at hq
    split at hq
    · split at hq
      · simp at hq
      · exact hsplit q hq
    · simp at hq
  · refine hsure (fun q hq => ?_) ha
    obtain ⟨s, -, hq⟩ := List.mem_flatMap.mp hq
    unfold importPredictions at hq
    split at hq
    · split at hq
      · simp at hq
      · exact hsplit q hq
    · simp at hq
  · obtain ⟨s, -, ha⟩ := List.mem_flatMap.mp ha
    rcases List.mem_append.mp ha with ha | ha
    · refine hsure (fun q hq => ?_) ha
      unfold namePredictions at hq
      split at hq
      · split at hq
        · obtain rfl := List.mem_singleton.mp hq
          rfl
        · simp at hq
      · simp at hq
    · unfold acceptActions at ha
      split at ha
      · split at ha
        · obtain rfl := List.mem_singleton.mp ha
          obtain ⟨n, -, rfl⟩ := Option.map_eq_some_iff.mp hp
          rfl
        · simp at ha
      · simp at ha

theorem marked_shard (hfresh : FreshId utxos tx) (op : Outpoint) (p : PriceState) :
    (marked env t tx utxos).lookup op = some (.shard p) ↔ utxos.lookup op = some (.shard p) := by
  unfold marked applyOfferMarker
  split
  · next i o offer _ =>
    rw [lookup_insert_of]
    split
    · next hop =>
      refine iff_of_false (by simp) fun h => hfresh op (Finmap.mem_iff.mpr ⟨_, h⟩) ?_
      rw [hop]
      rfl
    · rfl
  · rfl

/-- The live shards after a transaction whose spent shards all find their outputs. -/
theorem shards_after (hfresh : FreshId utxos tx) {authority : Bytes32}
    {prices : List.Vector Int64 5}
    (hasked : priceSpendPredictions t (spendsOf t tx utxos) =
      (shardIns (spendsOf t tx utxos)).map (shardPrediction priceId authority prices))
    (hout : ∀ j ∈ shardIns (spendsOf t tx utxos),
      BoundOutput env t tx priceId j.1 ⟨j.2.shard, authority, prices⟩) :
    ∃ g : ℕ → ℕ, ∀ op p, (applyUtxos env t tx utxos).lookup op = some (.shard p) ↔
      (∃ j ∈ shardIns (spendsOf t tx utxos), op = tx.outpoint (g j.1) ∧
        p = ⟨j.2.shard, authority, prices⟩) ∨
      utxos.lookup op = some (.shard p) ∧ op ∉ consumed t tx utxos := by
  set ins := shardIns (spendsOf t tx utxos) with hins
  have hlt : ∀ j ∈ ins, j.1 < 2 ^ 16 := by
    intro j hj
    obtain ⟨s, hs, hidx, -⟩ := mem_shardIns.mp hj
    exact hidx ▸ spend_idx_lt hs
  obtain ⟨g, hfold, hg⟩ := place_shards shardIns_idx_nodup hlt hout (marked env t tx utxos, [])
    (by simp)
  refine ⟨g, fun op p => ?_⟩
  set entries := ins.map fun j => (tx.outpoint (g j.1), Tracked.shard ⟨j.2.shard, authority, prices⟩)
    with hentries
  have hglt : ∀ j ∈ ins, g j.1 < tx.outputs.length := by
    intro j hj
    obtain ⟨o, hget, -⟩ := hg j hj
    exact (List.getElem?_eq_some_iff.mp hget).1
  have hkeys : (entries.map Prod.fst).Nodup := by
    rw [hentries, List.map_map]
    refine (List.Nodup.of_map Prod.fst shardIns_idx_nodup).map_on fun j hj k hk heq => ?_
    have hout := outpoint_injective (hglt j hj) (hglt k hk) heq
    have hidx := (hg j hj).idx (hout ▸ hg k hk) (hlt j hj) (hlt k hk)
    exact List.inj_on_of_nodup_map shardIns_idx_nodup hj hk hidx
  have hnew : ∀ op, utxos.lookup op = some (.shard p) → op.1 ≠ tx.id :=
    fun op h => hfresh op (Finmap.mem_iff.mpr ⟨_, h⟩)
  have hmem (op : Outpoint) : (op, Tracked.shard p) ∈ entries ↔
      ∃ j ∈ ins, op = tx.outpoint (g j.1) ∧ p = ⟨j.2.shard, authority, prices⟩ := by
    simp only [hentries, List.mem_map, Prod.mk.injEq, Tracked.shard.injEq]
    exact exists_congr fun j => and_congr_right fun _ => and_congr eq_comm eq_comm
  have hplaced (op : Outpoint) : (insertAll entries (marked env t tx utxos)).lookup op =
      some (.shard p) ↔ (op, Tracked.shard p) ∈ entries ∨ utxos.lookup op = some (.shard p) := by
    rw [lookup_insertAll_iff hkeys, marked_shard hfresh]
    refine or_congr_right ⟨And.right, fun h => ⟨fun hkey => ?_, h⟩⟩
    obtain ⟨x, hx, rfl⟩ := List.mem_map.mp hkey
    obtain ⟨j, -, rfl⟩ := List.mem_map.mp hx
    exact hnew _ h rfl
  -- what the branch places after the shards leaves them alone
  have hbranch : ∀ op, (Work.claims (applyWork env t tx utxos)).1.lookup op = some (.shard p) ↔
      (op, Tracked.shard p) ∈ entries ∨ utxos.lookup op = some (.shard p) := by
    rw [applyWork_claims, actions, List.foldl_append, foldl_sure, hasked, hfold]
    refine (List.foldlRecOn (motive := fun c : Claims => (∀ op, c.1.lookup op = some (.shard p) ↔
      (op, Tracked.shard p) ∈ entries ∨ utxos.lookup op = some (.shard p)) ∧
        ∀ j ∈ ins, g j.1 ∈ c.2) _ _ ⟨hplaced, ?_⟩ fun c hc a ha => ?_).1
    · intro j hj
      simpa using ⟨j.1, ⟨j.2, hj⟩, rfl⟩
    · unfold runAction
      split
      · next q hq =>
        unfold tryPlace
        split
        · next i hi =>
          obtain ⟨hused, o, hget, -⟩ := findOutput_some hi
          refine ⟨fun op => ?_, fun j hj => List.mem_append_left _ (hc.2 j hj)⟩
          rw [lookup_insert_of]
          split
          · next hop =>
            have hcore := branch_core ha hq
            refine iff_of_false (fun h => ?_) ?_
            · rw [Option.some.inj h] at hcore
              cases hcore
            · rintro (h | h)
              · obtain ⟨j, hj, hout, -⟩ := (hmem op).mp h
                have hlti := (List.getElem?_eq_some_iff.mp hget).1
                have hi := outpoint_injective hlti (hglt j hj) (hop.symm.trans hout)
                exact hused (hi ▸ hc.2 j hj)
              · exact hnew op h (by rw [hop]; rfl)
          · exact hc.1 op
        · exact hc
      · exact hc
  rw [applyUtxos_lookup, ← hmem]
  split
  · next hcons =>
    refine iff_of_false (by simp) ?_
    rintro (h | h)
    · obtain ⟨j, -, rfl, -⟩ := (hmem op).mp h
      exact consumed_ne_id hcons rfl
    · exact h.2 hcons
  · next hcons =>
    exact (hbranch op).trans (or_congr_right (and_iff_left hcons).symm)


theorem flatMap_shardIns {spends : List Spend} {f : Spend → List Prediction}
    {g : ℕ × PriceState → Prediction} (h : ∀ s ∈ spends, f s = (shardIns [s]).map g) :
    spends.flatMap f = (shardIns spends).map g := by
  have hins (s : Spend) (l : List Spend) : shardIns (s :: l) = shardIns [s] ++ shardIns l := by
    simp only [shardIns, List.filterMap_cons, List.filterMap_nil]
    cases s.tracked <;> rfl
  induction spends with
  | nil => rfl
  | cons s l ih =>
    rw [List.flatMap_cons, h s List.mem_cons_self, ih fun s' hs' => h s' (List.mem_cons_of_mem s hs'),
      hins s l, List.map_append]

/-- Uses ask for every spent shard as it was. -/
theorem uses_asked (hprice : t.priceId = some priceId)
    (huses : UsesContinued env t tx utxos priceId) {authority : Bytes32} {prices : List.Vector Int64 5}
    (hagree : ∀ s ∈ spendsOf t tx utxos, ∀ p, s.tracked = .shard p →
      p.authority = authority ∧ p.prices = prices) :
    priceSpendPredictions t (spendsOf t tx utxos) =
      (shardIns (spendsOf t tx utxos)).map (shardPrediction priceId authority prices) := by
  unfold priceSpendPredictions
  rw [hprice]
  refine flatMap_shardIns fun s hs => ?_
  cases htracked : s.tracked with
  | shard p =>
    obtain ⟨rfl, rfl⟩ := hagree s hs p htracked
    simp [pricePredictions, shardIns, shardPrediction, htracked, (huses s hs p htracked).1]
  | _ => simp [pricePredictions, shardIns, htracked]

theorem flatMap_sole {α β : Type*} {l : List α} (hnodup : l.Nodup) {a : α} (ha : a ∈ l)
    {f : α → List β} (hother : ∀ b ∈ l, b ≠ a → f b = []) : l.flatMap f = f a := by
  obtain ⟨front, back, rfl⟩ := List.append_of_mem ha
  rw [List.nodup_middle, List.nodup_cons, List.mem_append, not_or] at hnodup
  have hnil {part : List α} (hsub : ∀ b ∈ part, b ∈ front ++ a :: back) (hnot : a ∉ part) :
      part.flatMap f = [] :=
    List.flatMap_eq_nil_iff.mpr fun b hb => hother b (hsub b hb) fun heq => hnot (heq ▸ hb)
  rw [List.flatMap_append, List.flatMap_cons, hnil (by simp +contextual) hnodup.1.1,
    hnil (by simp +contextual) hnodup.1.2, List.nil_append, List.append_nil]

/-- An update asks for every spent shard with the new record, and the follows ask for nothing. -/
theorem update_asked (hprice : t.priceId = some priceId) {s₀ : Spend}
    (hs₀ : s₀ ∈ spendsOf t tx utxos) {args : Bytes32 × List.Vector Int64 5}
    (hentry : s₀.entry = .priceUpdate) (hargs : updateArgs s₀.sig = some args)
    (hfollow : ∀ s ∈ spendsOf t tx utxos, ∀ p, s.tracked = .shard p →
      s = s₀ ∨ s.entry = .priceFollow) :
    priceSpendPredictions t (spendsOf t tx utxos) =
      (shardIns (spendsOf t tx utxos)).map (shardPrediction priceId args.1 args.2) := by
  obtain ⟨p₀, htracked⟩ : ∃ p, s₀.tracked = .shard p := by
    have hcontract := spend_contract hs₀
    rw [hentry] at hcontract
    cases htracked : s₀.tracked with
    | shard p => exact ⟨p, rfl⟩
    | _ => rw [htracked] at hcontract; cases hcontract
  unfold priceSpendPredictions
  rw [hprice]
  dsimp only
  rw [flatMap_sole (.of_map Spend.idx spendsOf_idx_nodup) hs₀ fun s hs hne => ?_]
  · simp only [pricePredictions, htracked, hentry, hargs]
    rfl
  · cases hother : s.tracked with
    | shard p =>
      have hentry' := (hfollow s hs p hother).resolve_left hne
      simp [pricePredictions, hother, hentry']
    | _ => simp [pricePredictions, hother]

/-- When every spent shard goes on with the record and the unspent ones have it already, the record
has one shard per number again. -/
theorem PriceRecord.next {K : ℕ} {authority authority' : Bytes32} {prices prices' : List.Vector Int64 5}
    (h : PriceRecord K utxos authority prices) (hfresh : FreshId utxos tx)
    (hinputs : (tx.inputs.map TxInput.previousOutpoint).Nodup)
    (hasked : priceSpendPredictions t (spendsOf t tx utxos) =
      (shardIns (spendsOf t tx utxos)).map (shardPrediction priceId authority' prices'))
    (hout : ∀ s ∈ spendsOf t tx utxos, ∀ p, s.tracked = .shard p →
      BoundOutput env t tx priceId s.idx ⟨p.shard, authority', prices'⟩)
    (hleft : ∀ op p, utxos.lookup op = some (.shard p) → op ∉ consumed t tx utxos →
      p.authority = authority' ∧ p.prices = prices') :
    PriceRecord K (applyUtxos env t tx utxos) authority' prices' := by
  have hbound : ∀ j ∈ shardIns (spendsOf t tx utxos),
      BoundOutput env t tx priceId j.1 ⟨j.2.shard, authority', prices'⟩ := by
    intro j hj
    obtain ⟨s, hs, hidx, htracked⟩ := mem_shardIns.mp hj
    exact hidx ▸ hout s hs j.2 htracked
  obtain ⟨g, hafter⟩ := shards_after hfresh hasked hbound
  have hspent {j : ℕ × PriceState} (hj : j ∈ shardIns (spendsOf t tx utxos)) :
      ∃ s ∈ spendsOf t tx utxos, s.idx = j.1 ∧ utxos.lookup s.outpoint = some (.shard j.2) := by
    obtain ⟨s, hs, hidx, htracked⟩ := mem_shardIns.mp hj
    exact ⟨s, hs, hidx, htracked ▸ spend_lookup hs⟩
  refine ⟨fun op p hp => ?_, fun n hn => ?_⟩
  · rcases (hafter op p).mp hp with ⟨j, hj, -, rfl⟩ | ⟨hp, hcons⟩
    · obtain ⟨s, -, -, hlookup⟩ := hspent hj
      exact ⟨rfl, rfl, (h.agrees s.outpoint j.2 hlookup).2.2⟩
    · obtain ⟨hauthority, hprices⟩ := hleft op p hp hcons
      exact ⟨hauthority, hprices, (h.agrees op p hp).2.2⟩
  · obtain ⟨op₀, ⟨p₀, hp₀, hn₀⟩, hunique⟩ := h.one n hn
    by_cases hcons : op₀ ∈ consumed t tx utxos
    · -- the shard of this number goes on at the output bound to its input
      obtain ⟨s, hs, rfl⟩ := List.mem_map.mp hcons
      have htracked : s.tracked = .shard p₀ := Option.some.inj ((spend_lookup hs).symm.trans hp₀)
      have hj : (s.idx, p₀) ∈ shardIns (spendsOf t tx utxos) :=
        mem_shardIns.mpr ⟨s, hs, rfl, htracked⟩
      refine ⟨tx.outpoint (g s.idx), ⟨_, (hafter _ _).mpr (.inl ⟨_, hj, rfl, rfl⟩), hn₀⟩, ?_⟩
      rintro op ⟨p, hp, hpn⟩
      rcases (hafter op p).mp hp with ⟨j, hj', rfl, rfl⟩ | ⟨hp, hcons'⟩
      · obtain ⟨s', hs', hidx, hlookup⟩ := hspent hj'
        have hsame := spend_eq_of_outpoint hinputs hs' hs (hunique _ ⟨j.2, hlookup, hpn⟩)
        rw [← hidx, hsame]
      · exact absurd (hunique op ⟨p, hp, hpn⟩ ▸ hcons) hcons'
    · refine ⟨op₀, ⟨p₀, (hafter _ _).mpr (.inr ⟨hp₀, hcons⟩), hn₀⟩, ?_⟩
      rintro op ⟨p, hp, hpn⟩
      rcases (hafter op p).mp hp with ⟨j, hj', rfl, rfl⟩ | ⟨hp, -⟩
      · obtain ⟨s', hs', -, hlookup⟩ := hspent hj'
        have hsame := hunique _ ⟨j.2, hlookup, hpn⟩
        exact absurd (List.mem_map.mpr ⟨s', hs', hsame⟩) hcons
      · exact hunique op ⟨p, hp, hpn⟩

/-- A transaction with continued shards takes one price record to the next. -/
theorem record_step {K : ℕ} {authority : Bytes32} {prices : List.Vector Int64 5}
    (hprice : t.priceId = some priceId) (h : PriceRecord K utxos authority prices)
    (hfresh : FreshId utxos tx) (hshards : ShardsContinued env t tx utxos priceId) :
    ∃ authority' prices', PriceRecord K (applyUtxos env t tx utxos) authority' prices' ∧
      ∀ s ∈ spendsOf t tx utxos, ∀ p args, s.tracked = .shard p → s.entry = .priceUpdate →
        updateArgs s.sig = some args → args.1 = authority' := by
  have hagree : ∀ s ∈ spendsOf t tx utxos, ∀ p, s.tracked = .shard p →
      p.authority = authority ∧ p.prices = prices := by
    intro s hs p htracked
    have hp := h.agrees s.outpoint p (htracked ▸ spend_lookup hs)
    exact ⟨hp.1, hp.2.1⟩
  rcases hshards.outputs with huses | ⟨s₀, hs₀, args, hentry, hargs, hspent, hall⟩
  · refine ⟨authority, prices, h.next hfresh hshards.inputs (uses_asked hprice huses hagree) ?_ ?_, ?_⟩
    · intro s hs p htracked
      obtain ⟨rfl, rfl⟩ := hagree s hs p htracked
      exact (huses s hs p htracked).2
    · intro op p hp _
      have hp := h.agrees op p hp
      exact ⟨hp.1, hp.2.1⟩
    · intro s hs p args htracked hentry
      rw [(huses s hs p htracked).1] at hentry
      cases hentry
  · have hasked := update_asked hprice hs₀ hentry hargs fun s hs p htracked =>
      (hspent s hs p htracked).1
    refine ⟨args.1, args.2, h.next hfresh hshards.inputs hasked ?_ ?_, ?_⟩
    · exact fun s hs p htracked => (hspent s hs p htracked).2
    · exact fun op p hp hcons => absurd (hall op p hp) hcons
    · intro s hs p args' htracked hentry' hargs'
      rcases (hspent s hs p htracked).1 with rfl | hfollow
      · rw [hargs] at hargs'
        rw [Option.some.inj hargs']
      · rw [hfollow] at hentry'
        cases hentry'

def isPriceOp : Op → Bool
  | .prices | .priceAuthority => true
  | _ => false

theorem place_events (bind : Option (ℕ × Bytes32)) (spk : Bytes) (s : Tracked) (w : Work) :
    ((place tx spk bind s w).getD w).events = w.events := by
  unfold place
  cases findOutput tx spk w.used bind <;> rfl

theorem moveShards_events (authority : Bytes32) (prices : List.Vector Int64 5)
    (ins : List (ℕ × PriceState)) (wm : Work × ℕ) :
    (ins.foldl (moveShard env t tx priceId authority prices) wm).1.events = wm.1.events := by
  refine List.foldlRecOn (motive := fun x : Work × ℕ => x.1.events = wm.1.events) ins _ rfl ?_
  intro x hx j _
  rw [← hx]
  unfold moveShard place
  dsimp only
  cases findOutput tx _ x.1.used _ <;> rfl

/-- The event of a price update names the authority of the shard it spends and the new one. -/
theorem price_event {spends : List Spend} {w : Work} {e : Event}
    (he : e ∈ (applyPriceSpends env t tx spends w).events) :
    e ∈ w.events ∨ ∃ s ∈ spends, ∃ cur args, s.tracked = .shard cur ∧ s.entry = .priceUpdate ∧
      updateArgs s.sig = some args ∧ e.fromKey = some cur.authority ∧ e.toKey = some args.1 := by
  unfold applyPriceSpends at he
  split at he
  · exact .inl he
  · next priceId _ =>
    revert he
    refine List.foldlRecOn (motive := fun w' : Work => e ∈ w'.events → e ∈ w.events ∨ _) spends _
      .inl ?_
    intro w' ih s hs he
    unfold applyPriceSpend at he
    split at he
    · rw [place_events] at he
      exact ih he
    · next cur htracked hentry =>
      split at he
      · exact ih he
      · next authority prices hargs =>
        have hmoved := @moveShards_events env t tx priceId authority prices (shardIns spends) (w', 0)
        dsimp only at he
        split at he
        · rcases List.mem_append.mp he with he | he
          · rw [hmoved] at he
            exact ih he
          · rw [List.mem_singleton.mp he]
            exact .inr ⟨s, hs, cur, (authority, prices), htracked, hentry, hargs, rfl, rfl⟩
        · rw [hmoved] at he
          exact ih he
    · exact ih he

theorem recordName_event {auth : ℕ} {ns old : NameState} {op : Op} {price years : Option Int64}
    {w : Work} {e : Event} (hop : isPriceOp op = false)
    (he : e ∈ (recordName env t tx auth ns op old price years w).events) :
    e ∈ w.events ∨ isPriceOp e.op = false := by
  unfold recordName at he
  split at he
  · next w' hw' =>
    obtain ⟨i, -, rfl⟩ := Option.map_eq_some_iff.mp hw'
    rcases List.mem_append.mp he with he | he
    · exact .inl he
    · rw [List.mem_singleton.mp he]
      unfold nameEvent
      dsimp only
      split <;> exact .inr hop
  · exact .inl he

theorem placeSplit_event {auth : ℕ} {left right : GapState} {nm : NameState} {e' e : Event} {w : Work}
    (hop : isPriceOp e'.op = false)
    (he : e ∈ (placeSplit env t tx auth left right nm e' w).events) :
    e ∈ w.events ∨ isPriceOp e.op = false := by
  have hgaps : ([left, right].foldl (placeGap env t tx (regBind t auth)) w).events = w.events := by
    simp only [List.foldl_cons, List.foldl_nil, placeGap, place_events]
  unfold placeSplit at he
  dsimp only at he
  split at he
  · next w' hw' =>
    obtain ⟨i, -, rfl⟩ := Option.map_eq_some_iff.mp hw'
    rcases List.mem_append.mp he with he | he
    · exact .inl (hgaps ▸ he)
    · exact .inr (List.mem_singleton.mp he ▸ hop)
  · exact .inl (hgaps ▸ he)

theorem nameSpend_event {spends : List Spend} {s : Spend} {w : Work} {e : Event}
    (he : e ∈ (applyNameSpend env t tx spends w s).events) :
    e ∈ w.events ∨ isPriceOp e.op = false := by
  unfold applyNameSpend at he
  split at he
  · split at he
    · next ns op price years hcontinue =>
      refine recordName_event ?_ he
      unfold continueName at hcontinue
      split at hcontinue
      case h_6 => cases hcontinue
      all_goals
        obtain ⟨x, -, hx⟩ := Option.map_eq_some_iff.mp hcontinue
        cases hx
        first | rfl | split <;> rfl
    · exact .inl he
  · split at he
    · split at he
      · exact recordName_event rfl he
      · exact .inl he
    · exact .inl he
  · exact .inl he

/-- The branch emits no price event. -/
theorem branch_event {spends : List Spend} {w : Work} {e : Event}
    (he : e ∈ (branch env t tx spends w).events) : e ∈ w.events ∨ isPriceOp e.op = false := by
  unfold branch at he
  split_ifs at he
  · unfold applyExit at he
    dsimp only at he
    rcases List.mem_append.mp he with he | he
    · split at he
      · rw [place_events] at he
        exact .inl he
      · exact .inl he
    · obtain ⟨s, -, he⟩ := List.mem_filterMap.mp he
      unfold exitEvent at he
      split at he
      · cases he
        dsimp only [event]
        split <;> exact .inr rfl
      · cases he
  · unfold applyRegister at he
    split at he
    · split at he
      · exact .inl he
      · exact placeSplit_event rfl he
    · exact .inl he
  · unfold applyImport at he
    split at he
    · split at he
      · exact .inl he
      · exact placeSplit_event rfl he
    · exact .inl he
  · revert he
    refine List.foldlRecOn (motive := fun w' : Work => e ∈ w'.events → _) spends _ .inl ?_
    intro w' ih s _ he
    rcases nameSpend_event he with he | he
    · exact ih he
    · exact .inr he

/-- A price event comes from an update of one of the spent shards. -/
theorem applyTx_price_event {r : Registry} {e : Event} (he : e ∈ (applyTx env t tx r).2)
    (hop : isPriceOp e.op = true) : ∃ s ∈ spendsOf t tx r.utxos, ∃ cur args, s.tracked = .shard cur ∧
      s.entry = .priceUpdate ∧ updateArgs s.sig = some args ∧ e.fromKey = some cur.authority ∧
      e.toKey = some args.1 := by
  change e ∈ (applyWork env t tx r.utxos).events at he
  rw [applyWork_branch] at he
  rcases branch_event he with he | he
  · unfold branchStart applyOfferExits at he
    rcases List.mem_append.mp he with he | he
    · refine (price_event he).resolve_left fun he => ?_
      unfold applyOfferMarker at he
      split at he
      · rw [List.mem_singleton.mp he] at hop
        cases hop
      · cases he
    · obtain ⟨s, -, he⟩ := List.mem_filterMap.mp he
      unfold offerExitEvent at he
      split at he
      · dsimp only at he
        split at he <;> cases he <;> cases hop
      · cases he
  · rw [he] at hop
    cases hop

end

/-- Every transaction of the run is fresh when it is applied and continues the shards it spends. -/
def ContinuedRun (env : Env) (t : Templates) (priceId : Bytes32) : Registry → List Tx → Prop
  | _, [] => True
  | r, tx :: txs => FreshId r.utxos tx ∧ ShardsContinued env t tx r.utxos priceId ∧
      ContinuedRun env t priceId (applyTx env t tx r).1 txs

section
variable {env : Env} {t : Templates} {priceId : Bytes32}

theorem record_run {K : ℕ} (hprice : t.priceId = some priceId) {r : Registry} {txs pre : List Tx}
    (hrun : ContinuedRun env t priceId r txs) (hpre : pre <+: txs) {authority : Bytes32}
    {prices : List.Vector Int64 5} (h : PriceRecord K r.utxos authority prices) :
    ∃ authority' prices', PriceRecord K (applyAll env t r pre).utxos authority' prices' := by
  induction txs generalizing r pre authority prices with
  | nil => exact ⟨authority, prices, by rwa [List.prefix_nil.mp hpre]⟩
  | cons tx txs ih =>
    cases pre with
    | nil => exact ⟨authority, prices, h⟩
    | cons tx' pre =>
      obtain ⟨rfl, htail⟩ := List.cons_prefix_cons.mp hpre
      obtain ⟨hfresh, hshards, hnext⟩ := hrun
      obtain ⟨authority', prices', h', -⟩ := record_step hprice h hfresh hshards
      rw [← applyTx_utxos] at h'
      have hlater := ih hnext htail h'
      exact hlater

theorem continuedRun_append {r : Registry} {txs txs' : List Tx} :
    ContinuedRun env t priceId r (txs ++ txs') ↔
      ContinuedRun env t priceId r txs ∧ ContinuedRun env t priceId (applyAll env t r txs) txs' := by
  induction txs generalizing r with
  | nil => simp [ContinuedRun, applyAll]
  | cons tx txs ih =>
    rw [List.cons_append, ContinuedRun, ih, ContinuedRun, and_assoc, and_assoc]
    rfl

theorem seedAll_shard {genesis : Outpoint} {gap : GapState} {shards : List (Outpoint × PriceState)}
    (hshards : (shards.map Prod.fst).Nodup) (op : Outpoint) (p : PriceState) :
    (seedAll genesis gap shards).utxos.lookup op = some (.shard p) ↔ (op, p) ∈ shards := by
  have hseed (l : List (Outpoint × PriceState)) (r : Registry) :
      (l.foldl (fun r x => r.seedShard x.1 x.2) r).utxos =
        insertAll (l.map fun x => (x.1, Tracked.shard x.2)) r.utxos := by
    induction l generalizing r with
    | nil => rfl
    | cons x l ih => exact ih (r.seedShard x.1 x.2)
  have hkeys : ((shards.map fun x => (x.1, Tracked.shard x.2)).map Prod.fst).Nodup := by
    rwa [List.map_map]
  unfold seedAll
  rw [hseed, lookup_insertAll_iff hkeys]
  constructor
  · rintro (h | ⟨-, h⟩)
    · simpa using h
    · simp only [Registry.seedGenesis, Registry.new, lookup_insert_of] at h
      split at h <;> simp at h
  · intro h
    exact .inl (List.mem_map.mpr ⟨(op, p), h, rfl⟩)

/-- Seeded shards numbered from 0 that agree are one price record. -/
theorem record_seeds {genesis : Outpoint} {gap : GapState} {shards : List (Outpoint × PriceState)}
    (hshards : (shards.map Prod.fst).Nodup)
    (hnumbers : (shards.map fun x => x.2.shard.toInt).Perm ((List.range shards.length).map Int.ofNat))
    {authority : Bytes32} {prices : List.Vector Int64 5}
    (hagree : ∀ x ∈ shards, x.2.authority = authority ∧ x.2.prices = prices) :
    PriceRecord shards.length (seedAll genesis gap shards).utxos authority prices := by
  have hnodup : (shards.map fun x => x.2.shard.toInt).Nodup :=
    hnumbers.nodup_iff.mpr (List.nodup_range.map fun _ _ => Int.ofNat.inj)
  refine ⟨fun op p hp => ?_, fun n hn => ?_⟩
  · have hp := (seedAll_shard hshards op p).mp hp
    obtain ⟨n, hn, hnumber⟩ := List.mem_map.mp (hnumbers.subset
      (List.mem_map_of_mem (f := fun x : Outpoint × PriceState => x.2.shard.toInt) hp))
    exact ⟨(hagree _ hp).1, (hagree _ hp).2, n, List.mem_range.mp hn, hnumber.symm⟩
  · obtain ⟨x, hx, hnumber⟩ := List.mem_map.mp (hnumbers.symm.subset
      (List.mem_map_of_mem (f := Int.ofNat) (List.mem_range.mpr hn)))
    refine ⟨x.1, ⟨x.2, (seedAll_shard hshards _ _).mpr hx, hnumber⟩, ?_⟩
    rintro op ⟨p, hp, hpn⟩
    have hp := (seedAll_shard hshards op p).mp hp
    exact congrArg Prod.fst (List.inj_on_of_nodup_map hnodup hp hx (hpn.trans hnumber.symm))

/-- From agreeing shards numbered from 0, before and after every transaction of a run that continues
the shards it spends there is one live shard per number and all agree, and every price event carries
the authority before and after. -/
theorem prices_agree (env : Env) (t : Templates) (priceId : Bytes32) (hprice : t.priceId = some priceId)
    (genesis : Outpoint) (gap : GapState) (shards : List (Outpoint × PriceState))
    (hshards : (shards.map Prod.fst).Nodup)
    (hnumbers : (shards.map fun x => x.2.shard.toInt).Perm ((List.range shards.length).map Int.ofNat))
    (authority : Bytes32) (prices : List.Vector Int64 5)
    (hagree : ∀ x ∈ shards, x.2.authority = authority ∧ x.2.prices = prices) (txs : List Tx)
    (hrun : ContinuedRun env t priceId (seedAll genesis gap shards) txs) (pre : List Tx) (tx : Tx)
    (hpre : pre ++ [tx] <+: txs) :
    ∃ before pricesBefore after pricesAfter,
      PriceRecord shards.length (applyAll env t (seedAll genesis gap shards) pre).utxos before
        pricesBefore ∧
      PriceRecord shards.length (applyAll env t (seedAll genesis gap shards) (pre ++ [tx])).utxos after
        pricesAfter ∧
      ∀ e ∈ (applyTx env t tx (applyAll env t (seedAll genesis gap shards) pre)).2,
        isPriceOp e.op = true → e.fromKey = some before ∧ e.toKey = some after := by
  obtain ⟨rest, rfl⟩ := hpre
  have hseeds := @record_seeds genesis gap shards hshards hnumbers authority prices hagree
  rw [List.append_assoc, continuedRun_append] at hrun
  obtain ⟨before, pricesBefore, hbefore⟩ := record_run hprice hrun.1 List.prefix_rfl hseeds
  obtain ⟨hfresh, hcontinued, -⟩ := hrun.2
  obtain ⟨after, pricesAfter, hafter, hupdate⟩ := record_step hprice hbefore hfresh hcontinued
  refine ⟨before, pricesBefore, after, pricesAfter, hbefore, ?_, fun e he hop => ?_⟩
  · rw [applyAll_append, ← applyTx_utxos] at *
    exact hafter
  · obtain ⟨s, hs, cur, args, htracked, hentry, hargs, hfrom, hto⟩ := applyTx_price_event he hop
    refine ⟨?_, hupdate s hs cur args htracked hentry hargs ▸ hto⟩
    rw [hfrom, (hbefore.agrees s.outpoint cur (htracked ▸ spend_lookup hs)).1]

end

open NamesSample

/-- The shard `n` of the record before and after the update of the run below. -/
def oldShard (n : Int64) : PriceState := ⟨n, fill 7, ⟨[50, 40, 30, 20, 10], rfl⟩⟩
def newShard (n : Int64) : PriceState := ⟨n, fill 8, ⟨[60, 40, 30, 20, 10], rfl⟩⟩

def priceRedeems : List (Bytes × Bytes32) :=
  [((template 87).redeem (oldShard 0).encode,
      bytes32 0xed73fd4c0992a3176b5f98224da13b2f5f5130c24c9e2f7d3450c47b97830fe1),
    ((template 87).redeem (oldShard 1).encode,
      bytes32 0xe413d947f080617db097ad756964b0498f40c6d281c22e359fea1138efbd657c),
    ((template 87).redeem (newShard 0).encode,
      bytes32 0x0fcf918a0fd5817883d5d9fc67c2f53497293676c29834c3f443fab4e445aac9),
    ((template 87).redeem (newShard 1).encode,
      bytes32 0x3b8063a0af6a7d8c719f4df49a7e514f7fed626d1e794076710c4b4a1343429c)]

def priceEnv : Env :=
  { env with blake2b256 := fun b => ((priceRedeems.find? fun x => x.1 = b).map Prod.snd).getD zero32 }

def updateTag : Tag := ⟨[1, 2, 3, 4], rfl⟩
def followTag : Tag := ⟨[5, 6, 7, 8], rfl⟩
def priceTags : List (Contract × Tag × Entry) :=
  [(.price, updateTag, .priceUpdate), (.price, followTag, .priceFollow)]

theorem priceTags_contract : ∀ c ∈ priceTags, c.2.2.contract = c.1 := by decide

def priceCovenant : Bytes32 := fill 0xdd

def priceTemplates : Templates where
  gap := template 66
  name := template 126
  offer := template 75
  price := some (template 87)
  tags := priceTags
  periodMs := yearMs
  registryId := some registryCovenant
  priceId := some priceCovenant
  tags_contract := priceTags_contract

def priceShards : List (Outpoint × PriceState) :=
  [((fill 0x9b, 0), oldShard 0), ((fill 0x9b, 1), oldShard 1)]

/-- The first shard is updated, the second follows; the continuations stand in the other order. -/
def updatePrices : Tx where
  id := fill 0x55
  inputs := [input (fill 0x9b, 0) [(fill 8).toList, [60], [40], [30], [20], [10], (fill 3).toList]
      updateTag.toList ((template 87).redeem (oldShard 0).encode),
    input (fill 0x9b, 1) [] followTag.toList ((template 87).redeem (oldShard 1).encode)]
  outputs := [⟨priceTemplates.priceSpk priceEnv (newShard 1), 1000, some ⟨1, priceCovenant⟩⟩,
    ⟨priceTemplates.priceSpk priceEnv (newShard 0), 1000, some ⟨0, priceCovenant⟩⟩]
  payload := []
  acceptingBlock := fill 0xbb
  acceptingDaa := 585800000
  blockTime := now
  inputs_le := by decide
  outputs_le := by decide
  inputs_ne_id := by decide

def updateSig : SigScript where
  args := [.data (fill 8).toList, .data [60], .data [40], .data [30], .data [20], .data [10],
    .data (fill 3).toList]
  dispatchTag := updateTag
  redeem := (template 87).redeem (oldShard 0).encode

def followSig : SigScript := ⟨[], followTag, (template 87).redeem (oldShard 1).encode⟩

theorem updatePrices_continued : ContinuedRun priceEnv priceTemplates priceCovenant
    (seedAll genesis genesisGap priceShards) [updatePrices] := by
  have hspends : spendsOf priceTemplates updatePrices (seedAll genesis genesisGap priceShards).utxos =
      [⟨0, (fill 0x9b, 0), .shard (oldShard 0), .priceUpdate, updateSig⟩,
        ⟨1, (fill 0x9b, 1), .shard (oldShard 1), .priceFollow, followSig⟩] := by decide +kernel
  have hargs : updateArgs updateSig = some ((newShard 0).authority, (newShard 0).prices) := by
    decide +kernel
  refine ⟨by decide +kernel, ⟨by decide +kernel, .inr ?_⟩, trivial⟩
  unfold UpdateContinued consumed
  rw [hspends]
  refine ⟨_, List.mem_cons_self, _, rfl, hargs, fun s hs p hp => ?_, fun op p hp => ?_⟩
  · rcases List.mem_cons.mp hs with rfl | hs
    · cases hp
      exact ⟨.inl rfl, _, List.mem_cons_of_mem _ List.mem_cons_self, rfl, rfl⟩
    · rw [List.mem_singleton.mp hs] at hp ⊢
      cases hp
      exact ⟨.inr rfl, _, List.mem_cons_self, rfl, rfl⟩
  · rw [seedAll_shard (by decide)] at hp
    have hop := List.mem_map_of_mem (f := Prod.fst) hp
    exact hop

/-- Both shards carry the updated record. -/
theorem updatePrices_agree : ∃ before pricesBefore after pricesAfter,
    PriceRecord priceShards.length (applyAll priceEnv priceTemplates
      (seedAll genesis genesisGap priceShards) []).utxos before pricesBefore ∧
    PriceRecord priceShards.length (applyAll priceEnv priceTemplates
      (seedAll genesis genesisGap priceShards) ([] ++ [updatePrices])).utxos after pricesAfter ∧
    ∀ e ∈ (applyTx priceEnv priceTemplates updatePrices (applyAll priceEnv priceTemplates
        (seedAll genesis genesisGap priceShards) [])).2,
      isPriceOp e.op = true → e.fromKey = some before ∧ e.toKey = some after :=
  prices_agree priceEnv priceTemplates priceCovenant rfl genesis genesisGap priceShards (by decide)
    (by decide) (oldShard 0).authority (oldShard 0).prices
    (List.forall_mem_cons.mpr ⟨⟨rfl, rfl⟩, List.forall_mem_singleton.mpr ⟨rfl, rfl⟩⟩)
    [updatePrices] updatePrices_continued [] updatePrices List.prefix_rfl

end KaChatIndexer.NamesPrices

import KaChatIndexer.NamesPredictions

/-!
# What one transaction can change

Only outpoints of the transaction itself are inserted, each for a state that a spend asked for or
for the offer of the marker; of the others, exactly the recognised spends go.
-/
namespace KaChatIndexer.NamesStep
open ByteStrings NamesCodec NamesState NamesEnv NamesTransition NamesTemplates NamesRegistry
open NamesApply NamesPredictions FinmapPatch

section
variable {env : Env} {t : Templates} {tx : Tx} {utxos : UtxoMap}

theorem spendOf_eq_some {input : TxInput} {idx : ℕ} {s : Spend} :
    spendOf t utxos input idx = some s ↔ s.idx = idx ∧ s.outpoint = input.previousOutpoint ∧
      utxos.lookup input.previousOutpoint = some s.tracked ∧
      decodeSigScript input.signatureScript = some s.sig ∧
      t.entry (trackedContract s.tracked) s.sig.dispatchTag = some s.entry := by
  unfold spendOf
  constructor
  · intro h
    obtain ⟨tracked, ht, h⟩ := Option.bind_eq_some_iff.mp h
    obtain ⟨sig, hs, h⟩ := Option.bind_eq_some_iff.mp h
    obtain ⟨entry, he, h⟩ := Option.bind_eq_some_iff.mp h
    cases h
    exact ⟨rfl, rfl, ht, hs, he⟩
  · rintro ⟨rfl, hop, ht, hs, he⟩
    simp [ht, hs, he, ← hop]

theorem mem_spendsOf {s : Spend} : s ∈ spendsOf t tx utxos ↔
    ∃ input, tx.inputs[s.idx]? = some input ∧ spendOf t utxos input s.idx = some s := by
  simp only [spendsOf, List.mem_filterMap, Prod.exists]
  constructor
  · rintro ⟨input, idx, hmem, h⟩
    have hidx := (spendOf_eq_some.mp h).1
    rw [List.mem_zipIdx_iff_getElem?] at hmem
    exact ⟨input, by rwa [hidx], by rwa [hidx]⟩
  · rintro ⟨input, hget, h⟩
    exact ⟨input, s.idx, List.mem_zipIdx_iff_getElem?.mpr hget, h⟩

theorem spend_lookup {s : Spend} (hs : s ∈ spendsOf t tx utxos) :
    utxos.lookup s.outpoint = some s.tracked := by
  obtain ⟨input, -, h⟩ := mem_spendsOf.mp hs
  obtain ⟨-, hop, hlookup, -⟩ := spendOf_eq_some.mp h
  rwa [hop]

theorem spend_input {s : Spend} (hs : s ∈ spendsOf t tx utxos) :
    ∃ input, tx.inputs[s.idx]? = some input ∧ s.outpoint = input.previousOutpoint := by
  obtain ⟨input, hget, h⟩ := mem_spendsOf.mp hs
  exact ⟨input, hget, (spendOf_eq_some.mp h).2.1⟩

theorem spend_ne_id {s : Spend} (hs : s ∈ spendsOf t tx utxos) : s.outpoint.1 ≠ tx.id := by
  obtain ⟨input, hget, hop⟩ := spend_input hs
  rw [hop]
  exact tx.inputs_ne_id input (List.mem_of_getElem? hget)

theorem spend_contract {s : Spend} (hs : s ∈ spendsOf t tx utxos) :
    s.entry.contract = trackedContract s.tracked := by
  obtain ⟨input, -, h⟩ := mem_spendsOf.mp hs
  exact entry_contract (spendOf_eq_some.mp h).2.2.2.2

/-- Output `i` has the predicted script and binding. -/
def Carries (env : Env) (t : Templates) (tx : Tx) (p : Prediction) (i : ℕ) : Prop :=
  ∃ o, tx.outputs[i]? = some o ∧ o.scriptPublicKey = t.trackedSpk env p.state ∧
    bindingOk tx p.bind o = true

theorem carries_iff {p : Prediction} {i : ℕ} : Carries env t tx p i ↔
    (tx.outputs[i]?.any fun o => decide (o.scriptPublicKey = t.trackedSpk env p.state) &&
      bindingOk tx p.bind o) = true := by
  cases h : tx.outputs[i]? <;> simp [Carries, h]

instance (p : Prediction) (i : ℕ) : Decidable (Carries env t tx p i) :=
  decidable_of_iff _ carries_iff.symm

theorem Carries.lt {p : Prediction} {i : ℕ} (h : Carries env t tx p i) : i < tx.outputs.length := by
  obtain ⟨o, ho, -⟩ := h
  exact (List.getElem?_eq_some_iff.mp ho).1

theorem findOutput_some {spk : Bytes} {used : List ℕ} {bind : Option (ℕ × Bytes32)} {i : ℕ}
    (h : findOutput tx spk used bind = some i) : i ∉ used ∧
      ∃ o, tx.outputs[i]? = some o ∧ o.scriptPublicKey = spk ∧ bindingOk tx bind o = true := by
  obtain ⟨⟨o, j⟩, hfind, rfl⟩ := Option.map_eq_some_iff.mp h
  have hp := List.find?_some hfind
  have hmem := List.mem_zipIdx_iff_getElem?.mp (List.mem_of_find?_eq_some hfind)
  simp only [Bool.and_eq_true, decide_eq_true_eq] at hp
  exact ⟨hp.1.1, o, hmem, hp.1.2, hp.2⟩

theorem findOutput_none {spk : Bytes} {used : List ℕ} {bind : Option (ℕ × Bytes32)} {i : ℕ}
    {o : TxOutput} (h : findOutput tx spk used bind = none) (ho : tx.outputs[i]? = some o)
    (hspk : o.scriptPublicKey = spk) (hbind : bindingOk tx bind o = true) : i ∈ used := by
  by_contra hused
  have hnone := List.find?_eq_none.mp (Option.map_eq_none_iff.mp h) (o, i)
    (List.mem_zipIdx_iff_getElem?.mpr ho)
  simp [hused, hspk, hbind] at hnone

/-- What a state placed by `apply_spends` was asked for by: its binding names the input of a
recognised spend, under the registry id for gaps and names and the price id for shards. -/
def Asked (t : Templates) (spends : List Spend) (p : Prediction) : Prop :=
  match p.state with
  | .gap _ | .name _ => ∃ s ∈ spends, p.bind = regBind t s.idx
  | .shard _ => ∃ s ∈ spends, ∃ id, t.priceId = some id ∧ p.bind = some (s.idx, id)
  | .offer _ => False

theorem price_asked {spends : List Spend} {p : Prediction}
    (hp : p ∈ priceSpendPredictions t spends) : Asked t spends p := by
  unfold priceSpendPredictions at hp
  cases hid : t.priceId with
  | none => simp [hid] at hp
  | some id =>
    simp only [hid, List.mem_flatMap] at hp
    obtain ⟨s, hs, hp⟩ := hp
    unfold pricePredictions at hp
    split at hp
    · obtain rfl := List.mem_singleton.mp hp
      exact ⟨s, hs, id, hid, rfl⟩
    · split at hp
      · simp at hp
      · obtain ⟨j, hj, rfl⟩ := List.mem_map.mp hp
        obtain ⟨s', hs', hj⟩ := List.mem_filterMap.mp hj
        split at hj <;> cases hj
        exact ⟨s', hs', id, hid, rfl⟩
    · simp at hp

theorem split_asked {spends : List Spend} {s : Spend} (hs : s ∈ spends)
    {split : GapState × GapState × NameState} {p : Prediction}
    (hp : p ∈ splitPredictions t s.idx split) : Asked t spends p := by
  simp only [splitPredictions, List.mem_cons, List.not_mem_nil, or_false] at hp
  rcases hp with rfl | rfl | rfl <;> exact ⟨s, hs, rfl⟩

theorem register_asked {spends : List Spend} {s : Spend} (hs : s ∈ spends) {p : Prediction}
    (hp : p ∈ registerPredictions env t s) : Asked t spends p := by
  unfold registerPredictions at hp
  split at hp
  · split at hp
    · simp at hp
    · exact split_asked hs hp
  · simp at hp

theorem import_asked {spends : List Spend} {s : Spend} (hs : s ∈ spends) {p : Prediction}
    (hp : p ∈ importPredictions env t s) : Asked t spends p := by
  unfold importPredictions at hp
  split at hp
  · split at hp
    · simp at hp
    · exact split_asked hs hp
  · simp at hp

theorem exit_asked {spends : List Spend} {p : Prediction} (hp : p ∈ exitPredictions t spends) :
    Asked t spends p := by
  unfold exitPredictions at hp
  split at hp
  · next auth loGap hiGap hlo _ =>
    obtain rfl := List.mem_singleton.mp hp
    obtain ⟨s, hs, hmerge⟩ := List.exists_of_findSome?_eq_some hlo
    unfold mergeGap at hmerge
    split at hmerge <;> cases hmerge
    exact ⟨s, hs, rfl⟩
  · simp at hp

theorem name_asked {spends : List Spend} {s : Spend} (hs : s ∈ spends) {p : Prediction}
    (hp : p ∈ namePredictions t s) : Asked t spends p := by
  unfold namePredictions at hp
  split at hp
  · split at hp
    · obtain rfl := List.mem_singleton.mp hp
      exact ⟨s, hs, rfl⟩
    · simp at hp
  · simp at hp

theorem accept_asked {spends all : List Spend} {s : Spend} (hs : s ∈ spends) {a : Action}
    (ha : a ∈ acceptActions env t all s) {m : UtxoMap} {p : Prediction} (hp : a m = some p) :
    Asked t spends p := by
  unfold acceptActions at ha
  split at ha
  · split at ha
    · obtain rfl := List.mem_singleton.mp ha
      obtain ⟨x, -, rfl⟩ := Option.map_eq_some_iff.mp hp
      exact ⟨s, hs, rfl⟩
    · simp at ha
  · simp at ha

theorem sure_asked {spends : List Spend} {ps : List Prediction}
    (hps : ∀ p ∈ ps, Asked t spends p) {a : Action} (ha : a ∈ ps.map sure) {m : UtxoMap}
    {p : Prediction} (hp : a m = some p) : Asked t spends p := by
  obtain ⟨q, hq, rfl⟩ := List.mem_map.mp ha
  cases hp
  exact hps _ hq

theorem actions_asked {spends : List Spend} {a : Action} (ha : a ∈ actions env t spends)
    {m : UtxoMap} {p : Prediction} (hp : a m = some p) : Asked t spends p := by
  rcases List.mem_append.mp ha with ha | ha
  · exact sure_asked (fun q hq => price_asked hq) ha hp
  have hfirst {e : Entry} {f : Spend → List Prediction}
      (hf : ∀ s ∈ spends, ∀ q ∈ f s, Asked t spends q)
      (ha : a ∈ ((spends.find? fun s => s.entry = e).toList.flatMap f).map sure) :
      Asked t spends p := by
    refine sure_asked (fun q hq => ?_) ha hp
    obtain ⟨s, hs, hq⟩ := List.mem_flatMap.mp hq
    exact hf s (List.mem_of_find?_eq_some (Option.mem_toList.mp hs)) q hq
  unfold branchActions at ha
  split at ha
  · exact sure_asked (fun q hq => exit_asked hq) ha hp
  split at ha
  · exact hfirst (fun s hs q hq => register_asked hs hq) ha
  split at ha
  · exact hfirst (fun s hs q hq => import_asked hs hq) ha
  · obtain ⟨s, hs, ha⟩ := List.mem_flatMap.mp ha
    rcases List.mem_append.mp ha with ha | ha
    · exact sure_asked (fun q hq => name_asked hs hq) ha hp
    · exact accept_asked hs ha hp

/-- The UTXO map after the offer marker. -/
abbrev marked (env : Env) (t : Templates) (tx : Tx) (utxos : UtxoMap) : UtxoMap :=
  (applyOfferMarker env t tx utxos).1

theorem applyWork_claims : Work.claims (applyWork env t tx utxos) =
    (actions env t (spendsOf t tx utxos)).foldl (runAction env t tx)
      (marked env t tx utxos, []) := by
  unfold applyWork
  dsimp only
  split
  · next h =>
    rw [h]
    cases hid : t.priceId <;>
      simp [actions, branchActions, hasEntry, priceSpendPredictions, hid, Work.claims]
  · rw [applySpends_claims]; rfl

/-- The rule for everything `apply_spends` inserts: what holds after the marker and is kept by
each placement of an asked state holds before the spent UTXOs are consumed. -/
theorem applyWork_induction {I : Claims → Prop} (h0 : I (marked env t tx utxos, []))
    (hstep : ∀ c p i, I c → Asked t (spendsOf t tx utxos) p → i ∉ c.2 → Carries env t tx p i →
      I (c.1.insert (tx.outpoint i) p.state, c.2 ++ [i])) :
    I (Work.claims (applyWork env t tx utxos)) := by
  rw [applyWork_claims]
  refine List.foldlRecOn (motive := I) _ _ h0 fun c hc a ha => ?_
  unfold runAction
  split
  · next p hp =>
    unfold tryPlace
    split
    · next i hi =>
      obtain ⟨hused, hout⟩ := findOutput_some hi
      exact hstep c p i hc (actions_asked ha hp) hused hout
    · exact hc
  · exact hc

theorem marked_lookup {op : Outpoint} (h : op.1 ≠ tx.id) :
    (marked env t tx utxos).lookup op = utxos.lookup op := by
  unfold marked applyOfferMarker
  split
  · exact Finmap.lookup_insert_of_ne _ fun heq => h (congrArg Prod.fst heq)
  · rfl

theorem applyWork_lookup {op : Outpoint} (h : op.1 ≠ tx.id) :
    (applyWork env t tx utxos).utxos.lookup op = utxos.lookup op := by
  refine applyWork_induction (I := fun c => c.1.lookup op = utxos.lookup op) (marked_lookup h) ?_
  intro c p i hc _ _ _
  rw [← hc]
  exact Finmap.lookup_insert_of_ne _ fun heq => h (congrArg Prod.fst heq)

end

section
variable {env : Env} {t : Templates} {tx : Tx} {r : Registry}

/-- The outpoints a transaction consumes: those of its recognised spends. -/
def consumed (t : Templates) (tx : Tx) (utxos : UtxoMap) : List Outpoint :=
  (spendsOf t tx utxos).map Spend.outpoint

theorem consumed_ne_id {utxos : UtxoMap} {op : Outpoint} (h : op ∈ consumed t tx utxos) :
    op.1 ≠ tx.id := by
  obtain ⟨s, hs, rfl⟩ := List.mem_map.mp h
  exact spend_ne_id hs

/-- The effect of a transaction on the UTXO map. -/
def applyUtxos (env : Env) (t : Templates) (tx : Tx) (utxos : UtxoMap) : UtxoMap :=
  eraseAll (consumed t tx utxos) (applyWork env t tx utxos).utxos

theorem applyTx_utxos : (applyTx env t tx r).1.utxos = applyUtxos env t tx r.utxos := by
  simp only [applyTx, applyUtxos, consumed, List.map_map, Function.comp_def]

theorem applyUtxos_lookup (utxos : UtxoMap) (op : Outpoint) :
    (applyUtxos env t tx utxos).lookup op = if op ∈ consumed t tx utxos then none
      else (applyWork env t tx utxos).utxos.lookup op :=
  (lookup_eraseAll ..).trans (by congr)

theorem applyUtxos_other {utxos : UtxoMap} {op : Outpoint} (h : op.1 ≠ tx.id) :
    (applyUtxos env t tx utxos).lookup op =
      if op ∈ consumed t tx utxos then none else utxos.lookup op := by
  rw [applyUtxos_lookup, applyWork_lookup h]

theorem applyUtxos_own {utxos : UtxoMap} {op : Outpoint} (h : op.1 = tx.id) :
    (applyUtxos env t tx utxos).lookup op = (applyWork env t tx utxos).utxos.lookup op := by
  rw [applyUtxos_lookup, if_neg fun hc => consumed_ne_id hc h]

/-- The spent UTXOs with their states, as the undo entry keeps them. -/
def removedOf (t : Templates) (tx : Tx) (utxos : UtxoMap) : List (Outpoint × Tracked) :=
  (spendsOf t tx utxos).map fun s => (s.outpoint, s.tracked)

theorem removedOf_fst {utxos : UtxoMap} :
    (removedOf t tx utxos).map Prod.fst = consumed t tx utxos := by
  simp [removedOf, consumed, Function.comp_def]

theorem removedOf_lookup {utxos : UtxoMap} {x : Outpoint × Tracked}
    (h : x ∈ removedOf t tx utxos) : utxos.lookup x.1 = some x.2 := by
  obtain ⟨s, hs, rfl⟩ := List.mem_map.mp h
  exact spend_lookup hs

def addedOf (env : Env) (t : Templates) (tx : Tx) (utxos : UtxoMap) : List Outpoint :=
  (env.iter (applyUtxos env t tx utxos)).1.filter fun op => op ∉ utxos

theorem mem_addedOf {utxos : UtxoMap} {op : Outpoint} :
    op ∈ addedOf env t tx utxos ↔ op ∈ applyUtxos env t tx utxos ∧ op ∉ utxos := by
  simp [addedOf, (env.iter _).2.2]

/-- The undo entries a transaction adds to the journal: one if it changed anything. -/
def undoEntries (env : Env) (t : Templates) (tx : Tx) (r : Registry) : List UndoEntry :=
  let added := addedOf env t tx r.utxos
  let removed := removedOf t tx r.utxos
  let prior := (applyProfile env tx r.profiles).2
  if added ≠ [] ∨ removed ≠ [] ∨ prior.isSome then [⟨tx.acceptingBlock, added, removed, prior⟩]
  else []

theorem applyTx_journal :
    (applyTx env t tx r).1.journal = r.journal ++ undoEntries env t tx r := by
  have hutxos : eraseAll ((removedOf t tx r.utxos).map Prod.fst) (applyWork env t tx r.utxos).utxos =
      applyUtxos env t tx r.utxos := by rw [removedOf_fst]; rfl
  have hadded : addedOf env t tx r.utxos = (env.iter (eraseAll ((removedOf t tx r.utxos).map Prod.fst)
      (applyWork env t tx r.utxos).utxos)).1.filter fun op => op ∉ r.utxos := by
    rw [addedOf, ← hutxos]
  simp only [applyTx, undoEntries, hadded, removedOf]
  split
  · rfl
  · exact (List.append_nil _).symm

theorem undoEntries_block {e : UndoEntry} (h : e ∈ undoEntries env t tx r) :
    e.block = tx.acceptingBlock := by
  unfold undoEntries at h
  dsimp only at h
  split at h
  · rw [List.mem_singleton.mp h]
  · simp at h

end

end KaChatIndexer.NamesStep

import KaChatIndexer.NamesReadBack
import KaChatIndexer.NamesSoundness

/-!
# Tracked names are padded names

Names enter the registry through a register or import, which ask for a valid name and pad it; every
other entry copies the name field.
-/
namespace KaChatIndexer.NamesPadding
open ByteStrings NamesCodec NamesState NamesEnv NamesTransition NamesTemplates NamesRegistry
open NamesApply NamesPredictions NamesStep NamesSoundness NamesReadBack FinmapPatch UndoLog

section
variable {env : Env} {t : Templates} {tx : Tx} {utxos : UtxoMap}

theorem registerArgs_valid {sig : SigScript} {a : Bytes × Bytes32 × Int64 × Int64}
    (h : registerArgs sig = some a) : isValidName a.1 = true := by
  simp only [registerArgs, Option.bind_eq_bind, Option.bind_eq_some_iff] at h
  obtain ⟨name, -, owner, -, now, -, years, -, h⟩ := h
  split at h <;> cases h
  assumption

theorem importArgs_valid {sig : SigScript} {a : Bytes × Bytes32 × Int64 × Int64}
    (h : importArgs sig = some a) : isValidName a.1 = true := by
  simp only [importArgs, Option.bind_eq_bind, Option.bind_eq_some_iff] at h
  obtain ⟨name, -, owner, -, start, -, expires, -, h⟩ := h
  split at h <;> cases h
  assumption

theorem continueName_name {periodMs : Int64} {accepted : Bool} {old : NameState} {e : Entry}
    {sig : SigScript} {a : NameState × Op × Option Int64 × Option Int64}
    (h : continueName periodMs accepted old e sig = some a) : a.1.name = old.name := by
  unfold continueName at h
  split at h
  any_goals
    obtain ⟨arg, -, rfl⟩ := Option.map_eq_some_iff.mp h
    rfl
  cases h

theorem split_padded {auth : ℕ} {split : GapState × GapState × NameState} {name : Bytes}
    (hvalid : isValidName name = true) (hname : split.2.2.name = padName name) :
    ∀ p ∈ splitPredictions t auth split, IsPadded p.state := by
  intro p hp
  simp only [splitPredictions, List.mem_cons, List.not_mem_nil, or_false] at hp
  rcases hp with rfl | rfl | rfl
  · exact True.intro
  · exact True.intro
  · exact ⟨name, hvalid, hname⟩

theorem register_padded {s : Spend} : ∀ p ∈ registerPredictions env t s, IsPadded p.state := by
  intro p hp
  unfold registerPredictions at hp
  split at hp
  · split at hp
    · simp at hp
    · next hargs => exact split_padded (registerArgs_valid hargs) rfl p hp
  · simp at hp

theorem import_padded {s : Spend} : ∀ p ∈ importPredictions env t s, IsPadded p.state := by
  intro p hp
  unfold importPredictions at hp
  split at hp
  · split at hp
    · simp at hp
    · next hargs => exact split_padded (importArgs_valid hargs) rfl p hp
  · simp at hp

theorem name_padded {s : Spend} (hs : IsPadded s.tracked) :
    ∀ p ∈ namePredictions t s, IsPadded p.state := by
  intro p hp
  unfold namePredictions at hp
  split at hp
  · next old hold =>
    rw [hold] at hs
    obtain ⟨name, hvalid, hname⟩ := hs
    split at hp
    · next hcontinue =>
      obtain rfl := List.mem_singleton.mp hp
      exact ⟨name, hvalid, (continueName_name hcontinue).trans hname⟩
    · simp at hp
  · simp at hp

/-- Gaps and shards hold no name. -/
theorem price_padded {spends : List Spend} :
    ∀ p ∈ priceSpendPredictions t spends, IsPadded p.state := by
  intro p hp
  unfold priceSpendPredictions at hp
  split at hp
  · simp at hp
  · obtain ⟨s, -, hp⟩ := List.mem_flatMap.mp hp
    unfold pricePredictions at hp
    split at hp
    · obtain rfl := List.mem_singleton.mp hp
      exact True.intro
    · split at hp
      · simp at hp
      · obtain ⟨j, -, rfl⟩ := List.mem_map.mp hp
        exact True.intro
    · simp at hp

theorem exit_padded {spends : List Spend} :
    ∀ p ∈ exitPredictions t spends, IsPadded p.state := by
  intro p hp
  unfold exitPredictions at hp
  split at hp
  · obtain rfl := List.mem_singleton.mp hp
    exact True.intro
  · simp at hp

/-- With padded names spent and tracked, only padded names are asked for. -/
theorem actions_padded {spends : List Spend} (hspends : ∀ s ∈ spends, IsPadded s.tracked)
    {m : UtxoMap} (hm : ∀ op s, m.lookup op = some s → IsPadded s) {a : Action}
    (ha : a ∈ actions env t spends) {p : Prediction} (hp : a m = some p) : IsPadded p.state := by
  have hsure {ps : List Prediction} (hps : ∀ p ∈ ps, IsPadded p.state) (ha : a ∈ ps.map sure) :
      IsPadded p.state := by
    obtain ⟨q, hq, rfl⟩ := List.mem_map.mp ha
    cases hp
    exact hps _ hq
  have hfirst {e : Entry} {f : Spend → List Prediction} (hf : ∀ s, ∀ q ∈ f s, IsPadded q.state)
      (ha : a ∈ ((spends.find? fun s => s.entry = e).toList.flatMap f).map sure) :
      IsPadded p.state :=
    hsure (fun q hq => by
      obtain ⟨s, -, hq⟩ := List.mem_flatMap.mp hq
      exact hf s q hq) ha
  rcases List.mem_append.mp ha with ha | ha
  · exact hsure price_padded ha
  unfold branchActions at ha
  split at ha
  · exact hsure exit_padded ha
  split at ha
  · exact hfirst (fun s => register_padded) ha
  split at ha
  · exact hfirst (fun s => import_padded) ha
  obtain ⟨s, hs, ha⟩ := List.mem_flatMap.mp ha
  rcases List.mem_append.mp ha with ha | ha
  · exact hsure (name_padded (hspends s hs)) ha
  · unfold acceptActions at ha
    split at ha
    · split at ha
      · obtain rfl := List.mem_singleton.mp ha
        obtain ⟨⟨op, n⟩, hfound, rfl⟩ := Option.map_eq_some_iff.mp hp
        have hn : IsPadded (.name n) := hm op _ (nameByKey_some hfound).1
        exact hn
      · simp at ha
    · simp at ha

theorem applyUtxos_padded (h : ∀ op s, utxos.lookup op = some s → IsPadded s) (op : Outpoint)
    (s : Tracked) (hs : (applyUtxos env t tx utxos).lookup op = some s) : IsPadded s := by
  rw [applyUtxos_lookup] at hs
  split at hs
  · cases hs
  have hclaims : ∀ op s, (Work.claims (applyWork env t tx utxos)).1.lookup op = some s →
      IsPadded s := by
    rw [applyWork_claims]
    refine List.foldlRecOn (motive := fun c : Claims => ∀ op s, c.1.lookup op = some s →
      IsPadded s) _ _ ?_ fun c hc a ha => ?_
    · intro op s hs
      unfold marked applyOfferMarker at hs
      split at hs
      · rw [lookup_insert_of] at hs
        split at hs
        · cases hs
          exact True.intro
        · exact h op s hs
      · exact h op s hs
    · unfold runAction
      split
      · next p hp =>
        unfold tryPlace
        split
        · intro op s hs
          rw [lookup_insert_of] at hs
          split at hs
          · cases hs
            exact actions_padded (fun s hs => h _ _ (spend_lookup hs)) hc ha hp
          · exact hc op s hs
        · exact hc
      · exact hc
  exact hclaims op s hs

/-- Every name that is tracked, or that the journal could bring back, is padded. -/
def NamesPadded (r : Registry) : Prop := ∀ x, Kept r x → IsPadded x.2

variable {r : Registry}

theorem NamesPadded.tracked (h : NamesPadded r) (op : Outpoint) (s : Tracked)
    (hs : r.utxos.lookup op = some s) : IsPadded s := h (op, s) (.inl hs)

theorem NamesPadded.apply (h : NamesPadded r) (tx : Tx) : NamesPadded (applyTx env t tx r).1 := by
  intro y hy
  rcases hy with hy | ⟨e, he, hy⟩
  · rw [applyTx_utxos] at hy
    exact applyUtxos_padded h.tracked y.1 y.2 hy
  · rw [applyTx_journal] at he
    rcases List.mem_append.mp he with he | he
    · exact h y (.inr ⟨e, he, hy⟩)
    · unfold undoEntries at he
      dsimp only at he
      split at he
      · obtain rfl := List.mem_singleton.mp he
        exact h.tracked y.1 y.2 (removedOf_lookup hy)
      · simp at he

theorem NamesPadded.applyAll (h : NamesPadded r) (txs : List Tx) :
    NamesPadded (applyAll env t r txs) :=
  List.foldlRecOn (motive := NamesPadded) txs _ h fun _ hr tx _ => hr.apply tx

/-- Undoing and pruning bring nothing new. -/
theorem NamesPadded.less {r' : Registry} (h : NamesPadded r) (hless : ∀ y, Kept r' y → Kept r y) :
    NamesPadded r' := fun y hy => h y (hless y hy)

theorem NamesPadded.undoBlocks (h : NamesPadded r) (removed : List Bytes32) :
    NamesPadded (removed.foldl undoBlock r) :=
  List.foldlRecOn (motive := NamesPadded) removed _ h fun r hr b _ => hr.less fun y hy => by
    rcases hy with hy | ⟨e, he, hy⟩
    · rcases undoAll_mem hy with hy | ⟨e, he, hy⟩
      · exact .inl hy
      · exact .inr ⟨e, (List.mem_filter.mp he).1, hy⟩
    · exact .inr ⟨e, (List.mem_filter.mp he).1, hy⟩

theorem NamesPadded.prune (h : NamesPadded r) (keepLast : ℕ) :
    NamesPadded (pruneJournal r keepLast) := h.less fun y hy => by
  rcases hy with hy | ⟨e, he, hy⟩
  · exact .inl hy
  · exact .inr ⟨e, List.mem_of_mem_drop he, hy⟩

/-- Seeds are gaps and shards. -/
theorem NamesPadded.seed (h : NamesPadded r) {op : Outpoint} {s : Tracked} (hs : IsPadded s) :
    NamesPadded { r with utxos := r.utxos.insert op s } := by
  intro y hy
  rcases hy with hy | hy
  · rw [lookup_insert_of] at hy
    split at hy
    · cases hy
      exact hs
    · exact h.tracked y.1 y.2 hy
  · exact h y (.inr hy)

end

end KaChatIndexer.NamesPadding

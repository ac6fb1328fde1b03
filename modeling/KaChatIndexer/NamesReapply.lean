import KaChatIndexer.NamesSpent

/-!
# Applying a transaction again

A second application finds the profile record no newer and, in chain order, no spend to make; but
the offer marker is handled whatever the transaction spends, so an offer that has left the live
set comes back.
-/
namespace KaChatIndexer.NamesReapply
open ByteStrings NamesCodec NamesState NamesEnv NamesTransition NamesTemplates NamesProfile
open NamesRegistry NamesApply NamesStep NamesReorg NamesSpent FinmapPatch

section
variable {env : Env} {t : Templates} {tx : Tx}

/-- The transaction's profile record, if it has one, is not newer than the stored row. -/
def ProfileOld (env : Env) (tx : Tx) (profiles : ProfileMap) : Prop :=
  ∀ addr row, profileRecord env tx = some (addr, row) →
    ∃ prior, profiles.lookup addr = some prior ∧ orderGt row.2 prior.2 = false

theorem profileOld_after (profiles : ProfileMap) :
    ProfileOld env tx (applyProfile env tx profiles).1 := by
  intro addr row hrow
  simp only [applyProfile, hrow]
  split
  · exact ⟨row, Finmap.lookup_insert _, orderGt_irrefl _⟩
  · next hold =>
    dsimp only
    cases hprior : profiles.lookup addr with
    | none => simp [hprior] at hold
    | some prior => exact ⟨prior, rfl, by simpa [hprior] using hold⟩

/-- A stored row is only ever replaced by a newer one. -/
theorem profileOld_applyProfile {tx' : Tx} {profiles : ProfileMap}
    (h : ProfileOld env tx profiles) : ProfileOld env tx (applyProfile env tx' profiles).1 := by
  intro addr row hrow
  obtain ⟨prior, hprior, hold⟩ := h addr row hrow
  unfold applyProfile
  split
  · exact ⟨prior, hprior, hold⟩
  · next addr' row' _ =>
    dsimp only
    split
    · next hnewer =>
      simp only [lookup_insert_of]
      split
      · next haddr =>
        subst haddr
        rw [hprior] at hnewer
        refine ⟨row', rfl, Bool.eq_false_iff.mpr fun hgt => ?_⟩
        rw [orderGt_trans hgt (by simpa using hnewer)] at hold
        cases hold
      · exact ⟨prior, hprior, hold⟩
    · exact ⟨prior, hprior, hold⟩

theorem profileOld_applyAll {r : Registry} {txs : List Tx} (h : ProfileOld env tx r.profiles) :
    ProfileOld env tx (applyAll env t r txs).profiles :=
  List.foldlRecOn (motive := fun r : Registry => ProfileOld env tx r.profiles) txs _ h
    fun _ h tx' _ => @profileOld_applyProfile env tx tx' _ h

theorem applyProfile_old {profiles : ProfileMap} (h : ProfileOld env tx profiles) :
    applyProfile env tx profiles = (profiles, none) := by
  unfold applyProfile
  split
  · rfl
  · next addr row hrow =>
    obtain ⟨prior, hprior, hold⟩ := h addr row hrow
    simp [hprior, hold]

/-- The offer that the transaction creates, if any, is tracked where its marker put it. -/
def OfferStands (env : Env) (t : Templates) (tx : Tx) (utxos : UtxoMap) : Prop :=
  ∀ i o offer, createdOffer env t tx = some (i, o, offer) →
    utxos.lookup (tx.outpoint i) = some (.offer offer)

/-- No input of the transaction spends a tracked UTXO in a way the applier recognises. -/
def NothingToSpend (t : Templates) (tx : Tx) (utxos : UtxoMap) : Prop :=
  ∀ input ∈ tx.inputs, ¬ Recognised t utxos input

theorem nothingToSpend_iff {utxos : UtxoMap} :
    NothingToSpend t tx utxos ↔ spendsOf t tx utxos = [] := by
  rw [← List.map_eq_nil_iff (f := Spend.outpoint), List.eq_nil_iff_forall_not_mem]
  change _ ↔ ∀ op, op ∉ consumed t tx utxos
  simp only [mem_consumed]
  constructor
  · rintro h op ⟨input, hmem, -, hrec⟩
    exact h input hmem hrec
  · intro h input hmem hrec
    exact h _ ⟨input, hmem, rfl, hrec⟩

theorem marked_eq_iff {utxos : UtxoMap} : marked env t tx utxos = utxos ↔
    OfferStands env t tx utxos := by
  unfold marked applyOfferMarker OfferStands
  cases hoffer : createdOffer env t tx with
  | none => simp
  | some x =>
    obtain ⟨i, o, offer⟩ := x
    constructor
    · rintro h _ _ _ heq
      cases heq
      rw [← congrArg (Finmap.lookup (tx.outpoint i)) h]
      exact Finmap.lookup_insert _
    · intro h
      apply Finmap.ext_lookup
      intro op
      simp only [lookup_insert_of]
      split
      · next hop => rw [hop, h i o offer rfl]
      · rfl

/-- Without spends, only the marker touches the UTXOs. -/
theorem applyUtxos_of_nothing {utxos : UtxoMap} (h : NothingToSpend t tx utxos) :
    applyUtxos env t tx utxos = marked env t tx utxos := by
  have hspends := nothingToSpend_iff.mp h
  simp only [applyUtxos, consumed, hspends, applyWork]
  rfl

theorem reapply_eq_iff {r : Registry} (hprofile : ProfileOld env tx r.profiles) :
    (applyTx env t tx r).1 = r ↔
      NothingToSpend t tx r.utxos ∧ OfferStands env t tx r.utxos := by
  constructor
  · intro h
    have hjournal : undoEntries env t tx r = [] := by
      have hj := congrArg Registry.journal h
      rwa [applyTx_journal, List.append_right_eq_self] at hj
    have hspends : NothingToSpend t tx r.utxos := by
      rw [nothingToSpend_iff]
      by_contra hne
      unfold undoEntries at hjournal
      dsimp only at hjournal
      rw [if_pos (.inr (.inl (by simpa [removedOf] using hne)))] at hjournal
      cases hjournal
    have hutxos := congrArg Registry.utxos h
    rw [applyTx_utxos, applyUtxos_of_nothing hspends, marked_eq_iff] at hutxos
    exact ⟨hspends, hutxos⟩
  · rintro ⟨hspends, hoffer⟩
    have hutxos : applyUtxos env t tx r.utxos = r.utxos := by
      rw [applyUtxos_of_nothing hspends, marked_eq_iff.mpr hoffer]
    have hadded : addedOf env t tx r.utxos = [] := by
      rw [List.eq_nil_iff_forall_not_mem]
      intro op hop
      obtain ⟨hin, hout⟩ := mem_addedOf.mp hop
      rw [hutxos] at hin
      exact hout hin
    have hjournal : undoEntries env t tx r = [] := by
      unfold undoEntries
      simp [hadded, removedOf, nothingToSpend_iff.mp hspends, applyProfile_old hprofile]
    refine registry_ext (Prod.ext (applyTx_utxos.trans hutxos) ?_) ?_
    · exact congrArg Prod.fst (applyProfile_old hprofile)
    · rw [applyTx_journal, hjournal, List.append_nil]

/-- Applying a transaction of the run again leaves the registry as it is exactly when none of its
inputs spends a tracked UTXO and the offer it created, if any, is still tracked. -/
theorem reapply_unchanged_iff (env : Env) (t : Templates) (r : Registry) (before : List Tx) (tx : Tx)
    (later : List Tx) :
    (applyTx env t tx (applyAll env t r (before ++ tx :: later))).1 =
        applyAll env t r (before ++ tx :: later) ↔
      NothingToSpend t tx (applyAll env t r (before ++ tx :: later)).utxos ∧
        OfferStands env t tx (applyAll env t r (before ++ tx :: later)).utxos := by
  refine reapply_eq_iff ?_
  have hrun : applyAll env t r (before ++ tx :: later) =
      applyAll env t (applyTx env t tx (applyAll env t r before)).1 later := applyAll_append ..
  rw [hrun]
  exact profileOld_applyAll (profileOld_after _)

end

/-- The offer is back in the live set after its creation is applied again. -/
theorem withdrawn_offer_returns :
    ¬ ∀ (env : Env) (t : Templates) (r : Registry) (before : List Tx) (tx : Tx) (later : List Tx),
      (spentBy (before ++ tx :: later)).Nodup →
      (applyTx env t tx (applyAll env t r (before ++ tx :: later))).1 =
        applyAll env t r (before ++ tx :: later) := by
  intro h
  have hsame := h NamesSample.env NamesSample.templates NamesSample.seeded []
    NamesSample.makeOffer [NamesSample.withdrawOffer] (by decide)
  have hlookup := congrArg (fun r : Registry => r.utxos.lookup (NamesSample.fill 0x22, 0)) hsame
  revert hlookup
  decide +kernel

end KaChatIndexer.NamesReapply

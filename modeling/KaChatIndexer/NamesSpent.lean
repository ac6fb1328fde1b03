import KaChatIndexer.NamesReorg

/-!
# Spent outpoints

An input enters the spend list only if its signature script decodes and the tag names an entry,
so a tracked outpoint leaves the live set exactly when one of the inputs that spend it does.
-/
namespace KaChatIndexer.NamesSpent
open ByteStrings NamesCodec NamesState NamesEnv NamesTransition NamesTemplates NamesRegistry
open NamesApply NamesStep NamesReorg

section
variable {env : Env} {t : Templates} {tx : Tx}

/-- The input spends a tracked UTXO through a signature script that decodes, under a tag that
names an entry of the UTXO's contract. -/
def Recognised (t : Templates) (utxos : UtxoMap) (input : TxInput) : Prop :=
  ∃ tracked sig entry, utxos.lookup input.previousOutpoint = some tracked ∧
    decodeSigScript input.signatureScript = some sig ∧
    t.entry (trackedContract tracked) sig.dispatchTag = some entry

theorem mem_consumed {utxos : UtxoMap} {op : Outpoint} : op ∈ consumed t tx utxos ↔
    ∃ input ∈ tx.inputs, input.previousOutpoint = op ∧ Recognised t utxos input := by
  constructor
  · intro h
    obtain ⟨s, hs, rfl⟩ := List.mem_map.mp h
    obtain ⟨input, hget, hspend⟩ := mem_spendsOf.mp hs
    obtain ⟨-, hop, hlookup, hsig, hentry⟩ := spendOf_eq_some.mp hspend
    exact ⟨input, List.mem_of_getElem? hget, hop.symm, s.tracked, s.sig, s.entry, hlookup, hsig,
      hentry⟩
  · rintro ⟨input, hmem, rfl, tracked, sig, entry, hlookup, hsig, hentry⟩
    obtain ⟨idx, hget⟩ := List.mem_iff_getElem?.mp hmem
    refine List.mem_map.mpr ⟨⟨idx, input.previousOutpoint, tracked, entry, sig⟩, ?_, rfl⟩
    exact mem_spendsOf.mpr ⟨input, hget, spendOf_eq_some.mpr ⟨rfl, rfl, hlookup, hsig, hentry⟩⟩

/-- Every tracked outpoint that the transaction spends is spent by an input that is recognised. -/
def SpendsRecognised (t : Templates) (utxos : UtxoMap) (tx : Tx) : Prop :=
  ∀ input ∈ tx.inputs, input.previousOutpoint ∈ utxos →
    ∃ input' ∈ tx.inputs, input'.previousOutpoint = input.previousOutpoint ∧
      Recognised t utxos input'

theorem spent_untracked_iff (utxos : UtxoMap) :
    (∀ input ∈ tx.inputs, input.previousOutpoint ∉ applyUtxos env t tx utxos) ↔
      SpendsRecognised t utxos tx := by
  have hlookup (input : TxInput) (hmem : input ∈ tx.inputs) :=
    @applyUtxos_other env t tx utxos input.previousOutpoint (tx.inputs_ne_id input hmem)
  constructor
  · intro h input hmem htracked
    have hnone := hlookup input hmem
    rw [Finmap.lookup_eq_none.mpr (h input hmem)] at hnone
    refine mem_consumed.mp (by_contra fun hc => ?_)
    rw [if_neg hc] at hnone
    exact Finmap.lookup_eq_none.mp hnone.symm htracked
  · intro h input hmem
    rw [← Finmap.lookup_eq_none, hlookup input hmem]
    split
    · rfl
    · next hc =>
      exact Finmap.lookup_eq_none.mpr fun htracked => hc (mem_consumed.mpr (h input hmem htracked))

end

/-- The outpoints that the inputs of these transactions spend. -/
def spentBy (txs : List Tx) : List Outpoint :=
  txs.flatMap fun tx => tx.inputs.map TxInput.previousOutpoint

/-- A run in chain order (no transaction comes after one that spends its outputs) whose steps all
recognise the tracked outpoints they spend. -/
def RecognisedRun (env : Env) (t : Templates) : List Outpoint → Registry → List Tx → Prop
  | _, _, [] => True
  | spent, r, tx :: txs => SpendsRecognised t r.utxos tx ∧ (∀ op ∈ spent, op.1 ≠ tx.id) ∧
      RecognisedRun env t (spent ++ spentBy [tx]) (applyTx env t tx r).1 txs

section
variable {env : Env} {t : Templates}

theorem recognisedRun_untracked {spent : List Outpoint} {r : Registry} {txs : List Tx}
    (hrun : RecognisedRun env t spent r txs) (hspent : ∀ op ∈ spent, op ∉ r.utxos)
    {pre : List Tx} (hpre : pre <+: txs) :
    ∀ op ∈ spent ++ spentBy pre, op ∉ (applyAll env t r pre).utxos := by
  induction txs generalizing spent r pre with
  | nil => simpa [List.prefix_nil.mp hpre, spentBy, applyAll] using hspent
  | cons tx txs ih =>
    cases pre with
    | nil => simpa [spentBy, applyAll] using hspent
    | cons tx' pre =>
      obtain ⟨rfl, htail⟩ := List.cons_prefix_cons.mp hpre
      obtain ⟨hrec, hids, hrun⟩ := hrun
      have hgone : ∀ op ∈ spent ++ spentBy [tx'], op ∉ (applyTx env t tx' r).1.utxos := by
        intro op hop
        rw [applyTx_utxos]
        rcases List.mem_append.mp hop with hop | hop
        · intro hmem
          exact (mem_applyUtxos hmem).elim (hspent op hop) (hids op hop)
        · simp only [spentBy, List.flatMap_cons, List.flatMap_nil, List.append_nil,
            List.mem_map] at hop
          obtain ⟨input, hinput, rfl⟩ := hop
          exact (spent_untracked_iff r.utxos).mpr hrec input hinput
      have hstep := ih hrun hgone htail
      simpa [spentBy, List.append_assoc, applyAll] using hstep

/-- No outpoint spent by a transaction is tracked after it exactly when the tracked ones are
recognised; and a run in chain order whose steps recognise them never tracks an outpoint that an
applied transaction has spent. -/
theorem spent_leave_live_set (env : Env) (t : Templates) :
    (∀ (r : Registry) (tx : Tx),
      (∀ input ∈ tx.inputs, input.previousOutpoint ∉ (applyTx env t tx r).1.utxos) ↔
        SpendsRecognised t r.utxos tx) ∧
    ∀ (r : Registry) (txs : List Tx), RecognisedRun env t [] r txs →
      ∀ pre, pre <+: txs → ∀ op ∈ spentBy pre, op ∉ (applyAll env t r pre).utxos := by
  constructor
  · intro r tx
    rw [applyTx_utxos]
    exact spent_untracked_iff r.utxos
  · intro r txs hrun pre hpre
    exact recognisedRun_untracked hrun (by simp) hpre

end

/-- A spend of the genesis gap under a tag that no entry of the manifest has. -/
def unknownTagSpend : Tx where
  id := NamesSample.fill 0x44
  inputs := [NamesSample.input NamesSample.genesis [] [0, 0, 0, 0]
    (NamesSample.templates.gap.redeem NamesSample.genesisGap.encode)]
  outputs := []
  payload := []
  acceptingBlock := NamesSample.fill 0xbb
  acceptingDaa := 585800000
  blockTime := NamesSample.now
  inputs_le := by decide
  outputs_le := NamesSample.no_outputs_le
  inputs_ne_id := by decide

theorem spent_genesis_still_tracked :
    ¬ ∀ (env : Env) (t : Templates) (r : Registry) (tx : Tx), ∀ input ∈ tx.inputs,
      input.previousOutpoint ∉ (applyTx env t tx r).1.utxos := by
  intro h
  refine h NamesSample.env NamesSample.templates NamesSample.seeded unknownTagSpend _
    List.mem_cons_self (Finmap.mem_iff.mpr ⟨.gap NamesSample.genesisGap, ?_⟩)
  decide +kernel

end KaChatIndexer.NamesSpent

import KaChatIndexer.NamesReorg

/-!
# Soundness of the tracked set

Whatever is seeded, applied, undone and pruned, each tracked state, and each state that the
journal could bring back, is a seed or is carried by the output it is tracked at.
-/
namespace KaChatIndexer.NamesSoundness
open ByteStrings NamesCodec NamesState NamesEnv NamesTransition NamesTemplates NamesRegistry
open NamesApply NamesPredictions NamesStep NamesReorg FinmapPatch UndoLog

inductive Command
  | seedGenesis (op : Outpoint) (gap : GapState)
  | seedShard (op : Outpoint) (shard : PriceState)
  | apply (tx : Tx)
  | undo (block : Bytes32)
  | prune (keepLast : ℕ)

def Command.seed : Command → Option (Outpoint × Tracked)
  | .seedGenesis op gap => some (op, .gap gap)
  | .seedShard op shard => some (op, .shard shard)
  | _ => none

section
variable (env : Env) (t : Templates)

def runCommand (r : Registry) : Command → Registry
  | .seedGenesis op gap => r.seedGenesis op gap
  | .seedShard op shard => r.seedShard op shard
  | .apply tx => (applyTx env t tx r).1
  | .undo block => undoBlock r block
  | .prune keepLast => pruneJournal r keepLast

def runCommands (r : Registry) (cmds : List Command) : Registry := cmds.foldl (runCommand env t) r

/-- The transactions applied, each with the live set it was applied to. -/
def appliedTxs : Registry → List Command → List (UtxoMap × Tx)
  | _, [] => []
  | r, c :: cmds =>
    (match c with
      | .apply tx => [(r.utxos, tx)]
      | _ => []) ++ appliedTxs (runCommand env t r c) cmds

/-- The output carries the covenant `id`, authorized by an input that spent a tracked UTXO; asked
only where the transaction reports covenants. -/
def Authorized (utxos : UtxoMap) (tx : Tx) (o : TxOutput) (id? : Option Bytes32) : Prop :=
  ∀ id, id? = some id → (∃ o' ∈ tx.outputs, o'.covenant.isSome) →
    ∃ b input, o.covenant = some b ∧ b.covenantId = id ∧
      tx.inputs[b.authorizingInput.toNat]? = some input ∧ input.previousOutpoint ∈ utxos

def CovenantSound (utxos : UtxoMap) (tx : Tx) (o : TxOutput) : Tracked → Prop
  | .gap _ | .name _ => Authorized utxos tx o t.registryId
  | .shard _ => Authorized utxos tx o t.priceId
  | .offer _ => o.covenant = none

/-- Output `op` of the transaction carries the state. -/
def CarriedBy (utxos : UtxoMap) (tx : Tx) (x : Outpoint × Tracked) : Prop :=
  x.1.1 = tx.id ∧ ∃ o, tx.outputs[x.1.2.toNat]? = some o ∧
    o.scriptPublicKey = t.trackedSpk env x.2 ∧ CovenantSound t utxos tx o x.2

variable {env t} {tx : Tx} {utxos : UtxoMap}

theorem getElem?_outpoint {i : ℕ} {o : TxOutput} (h : tx.outputs[i]? = some o) :
    tx.outputs[(tx.outpoint i).2.toNat]? = some o := by
  have hlt := (List.getElem?_eq_some_iff.mp h).1
  have hle := tx.outputs_le
  have hidx : (tx.outpoint i).2.toNat = i := by
    simp only [Tx.outpoint, UInt32.toNat_ofNat']
    omega
  rw [hidx, h]

theorem createdOffer_some {i : ℕ} {o : TxOutput} {offer : OfferState}
    (h : createdOffer env t tx = some (i, o, offer)) : markerOffer env t tx = some offer ∧
      tx.outputs[i]? = some o ∧ o.scriptPublicKey = t.offerSpk env offer ∧ o.covenant = none := by
  obtain ⟨offer', hmarker, h⟩ := Option.bind_eq_some_iff.mp h
  obtain ⟨⟨o', i'⟩, hfind, heq⟩ := Option.map_eq_some_iff.mp h
  cases heq
  have hp := List.find?_some hfind
  have hmem := List.mem_zipIdx_iff_getElem?.mp (List.mem_of_find?_eq_some hfind)
  simp only [Bool.and_eq_true, decide_eq_true_eq, Option.isNone_iff_eq_none] at hp
  exact ⟨hmarker, hmem, hp⟩

theorem authorized_of_bound {o : TxOutput} {s : Spend} (hs : s ∈ spendsOf t tx utxos)
    {id? : Option Bytes32} (hok : bindingOk tx (id?.map fun id => (s.idx, id)) o = true) :
    Authorized utxos tx o id? := by
  rintro id rfl ⟨o', ho', hsome⟩
  have hany : tx.outputs.any (fun o => o.covenant.isSome) = true := List.any_eq_true.mpr ⟨o', ho', hsome⟩
  simp only [bindingOk, Option.map_some, hany, Bool.not_true, Bool.false_or,
    decide_eq_true_eq] at hok
  obtain ⟨input, hget, hop⟩ := spend_input hs
  have hlt := (List.getElem?_eq_some_iff.mp hget).1
  have hle := tx.inputs_le
  have hidx : (UInt16.ofNat s.idx).toNat = s.idx := by
    rw [UInt16.toNat_ofNat']
    omega
  refine ⟨_, input, hok, rfl, ?_, ?_⟩
  · rw [hidx, hget]
  · rw [← hop]
    exact Finmap.mem_iff.mpr ⟨_, spend_lookup hs⟩

theorem covenantSound_of_asked {p : Prediction} (hasked : Asked t (spendsOf t tx utxos) p)
    {o : TxOutput} (hok : bindingOk tx p.bind o = true) : CovenantSound t utxos tx o p.state := by
  obtain ⟨bind, state⟩ := p
  cases state with
  | gap | name =>
    obtain ⟨s, hs, rfl⟩ := hasked
    exact authorized_of_bound hs hok
  | shard =>
    obtain ⟨s, hs, id, hid, rfl⟩ := hasked
    refine authorized_of_bound hs ?_
    rwa [hid]
  | offer => exact hasked.elim

/-- What a transaction leaves tracked was tracked before or is carried by its outputs. -/
theorem applyUtxos_sound {x : Outpoint × Tracked}
    (h : (applyUtxos env t tx utxos).lookup x.1 = some x.2) :
    utxos.lookup x.1 = some x.2 ∨ CarriedBy env t utxos tx x := by
  rw [applyUtxos_lookup] at h
  split at h
  · cases h
  have hinv : ∀ y : Outpoint × Tracked, (applyWork env t tx utxos).utxos.lookup y.1 = some y.2 →
      utxos.lookup y.1 = some y.2 ∨ CarriedBy env t utxos tx y := by
    refine applyWork_induction (I := fun c => ∀ y : Outpoint × Tracked, c.1.lookup y.1 = some y.2 →
      utxos.lookup y.1 = some y.2 ∨ CarriedBy env t utxos tx y) ?_ ?_
    · intro y hy
      unfold marked applyOfferMarker at hy
      split at hy
      · next i o offer hoffer =>
        obtain ⟨-, hget, hspk, hcov⟩ := createdOffer_some hoffer
        rw [lookup_insert_of] at hy
        split at hy
        · next hop =>
          obtain ⟨op, s⟩ := y
          cases hop
          cases hy
          exact .inr ⟨rfl, o, getElem?_outpoint hget, hspk, hcov⟩
        · exact .inl hy
      · exact .inl hy
    · intro c p i hc hasked _ hcarries y hy
      rw [lookup_insert_of] at hy
      split at hy
      · next hop =>
        obtain ⟨op, s⟩ := y
        cases hop
        cases hy
        obtain ⟨o, hget, hspk, hok⟩ := hcarries
        exact .inr ⟨rfl, o, getElem?_outpoint hget, hspk, covenantSound_of_asked hasked hok⟩
      · exact hc y hy
  exact hinv x h

/-- A state the registry tracks, or could track again by an undo. -/
def Kept (r : Registry) (x : Outpoint × Tracked) : Prop :=
  r.utxos.lookup x.1 = some x.2 ∨ ∃ e ∈ r.journal, x ∈ e.removed

theorem insertAll_mem {entries : List (Outpoint × Tracked)} {m : UtxoMap} {x : Outpoint × Tracked}
    (h : (insertAll entries m).lookup x.1 = some x.2) : m.lookup x.1 = some x.2 ∨ x ∈ entries := by
  induction entries generalizing m with
  | nil => exact .inl h
  | cons y entries ih =>
    rcases ih h with hm | hmem
    · rw [lookup_insert_of] at hm
      split at hm
      · next heq =>
        have hx : x = y := Prod.ext heq (Option.some.inj hm).symm
        exact .inr (hx ▸ List.mem_cons_self)
      · exact .inl hm
    · exact .inr (List.mem_cons_of_mem y hmem)

theorem undoAll_mem {es : List UndoEntry} {s : UtxoMap × ProfileMap} {x : Outpoint × Tracked}
    (h : (undoAll undoEntry s es).1.lookup x.1 = some x.2) :
    s.1.lookup x.1 = some x.2 ∨ ∃ e ∈ es, x ∈ e.removed := by
  induction es using List.reverseRecOn generalizing s with
  | nil => exact .inl h
  | append_singleton es e ih =>
    rw [undoAll_append] at h
    rcases ih h with hs | ⟨e', he', hx⟩
    · rcases insertAll_mem hs with hm | hx
      · rw [lookup_eraseAll] at hm
        split at hm
        · cases hm
        · exact .inl hm
      · exact .inr ⟨e, by simp, hx⟩
    · exact .inr ⟨e', by simp [he'], hx⟩

/-- A command keeps only what was kept before, a seed, or what the applied transaction carries. -/
theorem kept_runCommand {r : Registry} {c : Command} {x : Outpoint × Tracked}
    (h : Kept (runCommand env t r c) x) : Kept r x ∨ c.seed = some x ∨
      ∃ tx, c = .apply tx ∧ CarriedBy env t r.utxos tx x := by
  have hseed {op : Outpoint} {s : Tracked}
      (h : Kept { r with utxos := r.utxos.insert op s } x) : Kept r x ∨ some (op, s) = some x := by
    rcases h with h | h
    · rw [lookup_insert_of] at h
      split at h
      · next heq =>
        cases h
        exact .inr (congrArg some (Prod.ext heq.symm rfl))
      · exact .inl (.inl h)
    · exact .inl (.inr h)
  cases c with
  | seedGenesis op gap => exact (hseed h).imp_right .inl
  | seedShard op shard => exact (hseed h).imp_right .inl
  | apply tx =>
    rcases h with h | ⟨e, he, hx⟩
    · simp only [runCommand, applyTx_utxos] at h
      exact (applyUtxos_sound h).elim (fun h => .inl (.inl h)) fun h => .inr (.inr ⟨tx, rfl, h⟩)
    · simp only [runCommand, applyTx_journal] at he
      rcases List.mem_append.mp he with he | he
      · exact .inl (.inr ⟨e, he, hx⟩)
      · unfold undoEntries at he
        dsimp only at he
        split at he
        · obtain rfl := List.mem_singleton.mp he
          exact .inl (.inl (removedOf_lookup hx))
        · simp at he
  | undo block =>
    rcases h with h | ⟨e, he, hx⟩
    · rcases undoAll_mem h with h | ⟨e, he, hx⟩
      · exact .inl (.inl h)
      · exact .inl (.inr ⟨e, (List.mem_filter.mp he).1, hx⟩)
    · exact .inl (.inr ⟨e, (List.mem_filter.mp he).1, hx⟩)
  | prune keepLast =>
    rcases h with h | ⟨e, he, hx⟩
    · exact .inl (.inl h)
    · exact .inl (.inr ⟨e, List.mem_of_mem_drop he, hx⟩)

theorem kept_runCommands {r : Registry} {cmds : List Command} {x : Outpoint × Tracked}
    (h : Kept (runCommands env t r cmds) x) : Kept r x ∨ x ∈ cmds.filterMap Command.seed ∨
      ∃ a ∈ appliedTxs env t r cmds, CarriedBy env t a.1 a.2 x := by
  induction cmds generalizing r with
  | nil => exact .inl h
  | cons c cmds ih =>
    rcases ih h with hkept | hseed | ⟨a, ha, hcarried⟩
    · rcases kept_runCommand hkept with hkept | hseed | ⟨tx, rfl, hcarried⟩
      · exact .inl hkept
      · exact .inr (.inl (by simp [hseed]))
      · exact .inr (.inr ⟨(r.utxos, tx), by simp [appliedTxs], hcarried⟩)
    · refine .inr (.inl ?_)
      obtain ⟨c', hc', heq⟩ := List.mem_filterMap.mp hseed
      exact List.mem_filterMap.mpr ⟨c', List.mem_cons_of_mem c hc', heq⟩
    · exact .inr (.inr ⟨a, List.mem_append_right _ ha, hcarried⟩)

/-- The output indices taken for derived states: the marker's offer, then those of the spends. -/
def claimedOutputs (env : Env) (t : Templates) (tx : Tx) (utxos : UtxoMap) : List ℕ :=
  ((createdOffer env t tx).map Prod.fst).toList ++ (applyWork env t tx utxos).used

theorem used_nodup : (applyWork env t tx utxos).used.Nodup := by
  refine applyWork_induction (I := fun c => c.2.Nodup) List.nodup_nil ?_
  intro c p i hc _ hused _
  exact List.nodup_append.mpr ⟨hc, List.nodup_singleton i, by simp; rintro a ha rfl; exact hused ha⟩

/-- Every output taken for a spend has the script of the state tracked there. -/
theorem used_spk {i : ℕ} (h : i ∈ (applyWork env t tx utxos).used) :
    ∃ o s, tx.outputs[i]? = some o ∧ (applyWork env t tx utxos).utxos.lookup (tx.outpoint i) = some s ∧
      o.scriptPublicKey = t.trackedSpk env s := by
  have hinv : ∀ i ∈ (Work.claims (applyWork env t tx utxos)).2, ∃ o s, tx.outputs[i]? = some o ∧
      (Work.claims (applyWork env t tx utxos)).1.lookup (tx.outpoint i) = some s ∧
      o.scriptPublicKey = t.trackedSpk env s := by
    refine applyWork_induction (I := fun c => ∀ i ∈ c.2, ∃ o s, tx.outputs[i]? = some o ∧
      c.1.lookup (tx.outpoint i) = some s ∧ o.scriptPublicKey = t.trackedSpk env s) (by simp) ?_
    intro c p i hc _ hused hcarries j hj
    rcases List.mem_append.mp hj with hj | hj
    · obtain ⟨o, s, hget, hlookup, hspk⟩ := hc j hj
      refine ⟨o, s, hget, ?_, hspk⟩
      rw [lookup_insert_of, if_neg, hlookup]
      intro heq
      have hjlt := (List.getElem?_eq_some_iff.mp hget).1
      exact hused (outpoint_injective hjlt hcarries.lt heq ▸ hj)
    · obtain rfl := List.mem_singleton.mp hj
      obtain ⟨o, hget, hspk, -⟩ := hcarries
      exact ⟨o, p.state, hget, Finmap.lookup_insert _, hspk⟩
  exact hinv i h

/-- Every tracked or restorable state is a seed or is carried by the output it is tracked at, with
its covenant; no two spends claim one output; and where a spend claims the output of the marker's
offer, the two states have the same script. -/
theorem tracked_set_sound (env : Env) (t : Templates) :
    (∀ (cmds : List Command) (x : Outpoint × Tracked),
      Kept (runCommands env t Registry.new cmds) x → x ∈ cmds.filterMap Command.seed ∨
        ∃ a ∈ appliedTxs env t Registry.new cmds, CarriedBy env t a.1 a.2 x) ∧
    ∀ (utxos : UtxoMap) (tx : Tx), (applyWork env t tx utxos).used.Nodup ∧
      ∀ i o offer, createdOffer env t tx = some (i, o, offer) →
        i ∈ (applyWork env t tx utxos).used →
        ∃ s, (applyUtxos env t tx utxos).lookup (tx.outpoint i) = some s ∧
          t.trackedSpk env s = t.trackedSpk env (.offer offer) := by
  refine ⟨fun cmds x h => ?_, fun utxos tx => ⟨used_nodup, fun i o offer hoffer hi => ?_⟩⟩
  · rcases kept_runCommands h with hkept | h
    · rcases hkept with hkept | ⟨e, he, -⟩
      · simp [Registry.new] at hkept
      · simp [Registry.new] at he
    · exact h
  · obtain ⟨-, hget, hspk, -⟩ := createdOffer_some hoffer
    obtain ⟨o', s, hget', hlookup, hspk'⟩ := used_spk hi
    rw [hget'] at hget
    cases hget
    exact ⟨s, by rw [applyUtxos_own rfl, hlookup], hspk'.symm.trans hspk⟩

end

/-- Templates under which a gap's redeem is also the redeem of an offer refundable at once. -/
def lookalikeTemplates : Templates :=
  Templates.v2 ⟨[], 0x08 :: List.replicate 8 0, 66⟩ (NamesSample.template 126) ⟨[], [], 75⟩

/-- A merge of two gaps whose marker names an offer with the same script as the merged gap. -/
def lookalikeMerge : Tx where
  id := NamesSample.fill 0x55
  inputs := [NamesSample.input (NamesSample.fill 0x51, 0) [] [0x63, 0xd2, 0x5b, 0xc2] [0x51],
    NamesSample.input (NamesSample.fill 0x52, 0) [] [0xda, 0xb7, 0x63, 0x55] [0x51]]
  outputs := [NamesSample.output (lookalikeTemplates.offerSpk NamesSample.env NamesSample.offer)]
  payload := NamesSample.offerMarker
  acceptingBlock := NamesSample.fill 0xbb
  acceptingDaa := 585800000
  blockTime := NamesSample.now
  inputs_le := by decide
  outputs_le := by decide
  inputs_ne_id := by decide

/-- The output of the merge is claimed for the offer and for the merged gap. -/
theorem output_claimed_twice :
    ¬ ∀ (env : Env) (t : Templates) (r : Registry) (tx : Tx),
      (claimedOutputs env t tx r.utxos).Nodup := by
  intro h
  refine absurd (h NamesSample.env lookalikeTemplates
    ((Registry.new.seedGenesis (NamesSample.fill 0x51, 0)
      ⟨NamesSample.alice, NamesSample.fill 0x75⟩).seedGenesis (NamesSample.fill 0x52, 0)
        ⟨NamesSample.fill 0x75, NamesSample.signer⟩) lookalikeMerge) ?_
  decide +kernel

end KaChatIndexer.NamesSoundness

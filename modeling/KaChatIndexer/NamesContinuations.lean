import KaChatIndexer.NamesReorg

/-!
# Continuations

`apply_spends` takes one branch for a whole transaction. A predicted state whose output is in the
transaction is tracked exactly when the branch taken asks for it.
-/
namespace KaChatIndexer.NamesContinuations
open ByteStrings NamesCodec NamesState NamesEnv NamesTransition NamesTemplates NamesRegistry
open NamesApply NamesPredictions NamesStep NamesReorg FinmapPatch

section
variable (env : Env) (t : Templates) (tx : Tx) (utxos : UtxoMap) (spends : List Spend)

/-- Every merge with every absorbed gap. -/
def pairPredictions : List Prediction :=
  (spends.filterMap mergeGap).flatMap fun lo => (spends.filterMap absorbedGap).map fun hi =>
    ⟨regBind t lo.1, .gap (mergeGaps lo.2 hi)⟩

/-- What each spend predicts, whatever else the transaction spends. -/
def everyPrediction : List Prediction :=
  priceSpendPredictions t spends ++ pairPredictions t spends ++
    (spends.filter fun s => s.entry = .gapRegister).flatMap (registerPredictions env t) ++
    (spends.filter fun s => s.entry = .gapImport).flatMap (importPredictions env t) ++
    spends.flatMap (namePredictions t)

/-- What the branch taken asks for: the shards, and the exit, else the first register, else the
first import, else the name continuations. -/
def handled : List Prediction :=
  priceSpendPredictions t spends ++
    if hasEntry spends .gapMerge then exitPredictions t spends
    else if hasEntry spends .gapRegister then
      (spends.find? fun s => s.entry = .gapRegister).toList.flatMap (registerPredictions env t)
    else if hasEntry spends .gapImport then
      (spends.find? fun s => s.entry = .gapImport).toList.flatMap (importPredictions env t)
    else spends.flatMap (namePredictions t)

/-- A name that an offer accepted without a name transfer may ask for: a tracked or predicted name
of the offer's key, in the buyer's hands. -/
def AcceptedName (s : Spend) (accepted : NameState) : Prop :=
  ∃ offer n, s.tracked = .offer offer ∧ s.entry = .offerAccept ∧ ¬ hasEntry spends .nameTransfer ∧
    n.key = offer.key ∧ ((∃ op, utxos.lookup op = some (.name n)) ∨
      ∃ q ∈ everyPrediction env t spends, q.state = .name n) ∧ accepted = offerAccept n offer

/-- Output `i` carries the prediction; it is the only output that does, and no other predicted
state could be taken for it. -/
structure OwnOutput (p : Prediction) (i : ℕ) : Prop where
  carries : Carries env t tx p i
  only : ∀ j, Carries env t tx p j → j = i
  distinct : ∀ q ∈ everyPrediction env t spends, Carries env t tx q i → q.state = p.state
  unaccepted : ∀ s ∈ spends, ∀ n, AcceptedName env t utxos spends s n →
    ¬ Carries env t tx ⟨regBind t s.idx, .name n⟩ i

variable {env t tx utxos spends}

theorem handled_subset {p : Prediction} (hp : p ∈ handled env t spends) :
    p ∈ everyPrediction env t spends := by
  have hfirst {e : Entry} {f : Spend → List Prediction}
      (hp : p ∈ (spends.find? fun s => s.entry = e).toList.flatMap f) :
      p ∈ (spends.filter fun s => s.entry = e).flatMap f := by
    obtain ⟨s, hs, hp⟩ := List.mem_flatMap.mp hp
    have hfind := Option.mem_toList.mp hs
    have hentry := List.find?_some hfind
    exact List.mem_flatMap.mpr
      ⟨s, List.mem_filter.mpr ⟨List.mem_of_find?_eq_some hfind, hentry⟩, hp⟩
  simp only [everyPrediction, List.mem_append]
  rcases List.mem_append.mp hp with hp | hp
  · exact .inl (.inl (.inl (.inl hp)))
  split at hp
  · refine .inl (.inl (.inl (.inr ?_)))
    unfold exitPredictions at hp
    split at hp
    · next auth loGap hiGap hlo hhi =>
      obtain rfl := List.mem_singleton.mp hp
      obtain ⟨s, hs, hmerge⟩ := List.exists_of_findSome?_eq_some hlo
      obtain ⟨s', hs', habsorbed⟩ := List.exists_of_findSome?_eq_some hhi
      exact List.mem_flatMap.mpr ⟨_, List.mem_filterMap.mpr ⟨s, hs, hmerge⟩,
        List.mem_map.mpr ⟨_, List.mem_filterMap.mpr ⟨s', hs', habsorbed⟩, rfl⟩⟩
    · simp at hp
  split at hp
  · exact .inl (.inl (.inr (hfirst hp)))
  split at hp
  · exact .inl (.inr (hfirst hp))
  · exact .inr hp

theorem everyPrediction_asked {p : Prediction} (hp : p ∈ everyPrediction env t spends) :
    Asked t spends p := by
  simp only [everyPrediction, List.mem_append] at hp
  rcases hp with (((hp | hp) | hp) | hp) | hp
  · exact price_asked hp
  · obtain ⟨lo, hlo, hp⟩ := List.mem_flatMap.mp hp
    obtain ⟨hi, -, rfl⟩ := List.mem_map.mp hp
    obtain ⟨s, hs, hmerge⟩ := List.mem_filterMap.mp hlo
    unfold mergeGap at hmerge
    split at hmerge <;> cases hmerge
    exact ⟨s, hs, rfl⟩
  · obtain ⟨s, hs, hp⟩ := List.mem_flatMap.mp hp
    exact register_asked (List.mem_filter.mp hs).1 hp
  · obtain ⟨s, hs, hp⟩ := List.mem_flatMap.mp hp
    exact import_asked (List.mem_filter.mp hs).1 hp
  · obtain ⟨s, hs, hp⟩ := List.mem_flatMap.mp hp
    exact name_asked hs hp

theorem handled_sure {p : Prediction} (hp : p ∈ handled env t spends) :
    sure p ∈ actions env t spends := by
  unfold handled at hp
  unfold actions branchActions
  rcases List.mem_append.mp hp with hp | hp
  · exact List.mem_append_left _ (List.mem_map_of_mem hp)
  refine List.mem_append_right _ ?_
  split_ifs at hp ⊢
  · exact List.mem_map_of_mem hp
  · exact List.mem_map_of_mem hp
  · exact List.mem_map_of_mem hp
  · obtain ⟨s, hs, hp⟩ := List.mem_flatMap.mp hp
    exact List.mem_flatMap.mpr ⟨s, hs, List.mem_append_left _ (List.mem_map_of_mem hp)⟩

/-- An action asks for a handled prediction or for the tracked name of an accepted offer. -/
theorem action_cases {a : Action} (ha : a ∈ actions env t spends) {m : UtxoMap} {p : Prediction}
    (hp : a m = some p) : p ∈ handled env t spends ∨
      ∃ s ∈ spends, ∃ offer op n, s.tracked = .offer offer ∧ s.entry = .offerAccept ∧
        ¬ hasEntry spends .nameTransfer ∧ m.lookup op = some (.name n) ∧ n.key = offer.key ∧
        p = ⟨regBind t s.idx, .name (offerAccept n offer)⟩ := by
  have hsure {ps : List Prediction} (ha : a ∈ ps.map sure) : p ∈ ps := by
    obtain ⟨q, hq, rfl⟩ := List.mem_map.mp ha
    cases hp
    exact hq
  unfold actions branchActions at ha
  unfold handled
  rcases List.mem_append.mp ha with ha | ha
  · exact .inl (List.mem_append_left _ (hsure ha))
  split_ifs at ha ⊢
  · exact .inl (List.mem_append_right _ (hsure ha))
  · exact .inl (List.mem_append_right _ (hsure ha))
  · exact .inl (List.mem_append_right _ (hsure ha))
  · obtain ⟨s, hs, ha⟩ := List.mem_flatMap.mp ha
    rcases List.mem_append.mp ha with ha | ha
    · exact .inl (List.mem_append_right _ (List.mem_flatMap.mpr ⟨s, hs, hsure ha⟩))
    · right
      unfold acceptActions at ha
      split at ha
      · next offer hoffer =>
        split at ha
        · next haccept =>
          obtain rfl := List.mem_singleton.mp ha
          obtain ⟨x, hx, rfl⟩ := Option.map_eq_some_iff.mp hp
          obtain ⟨hlookup, hkey⟩ := nameByKey_some hx
          exact ⟨s, hs, offer, x.1, x.2, hoffer, haccept.1, haccept.2, hlookup, hkey, rfl⟩
        · simp at ha
      · simp at ha

/-- What the spends have claimed so far: names tracked or predicted or accepted, every taken output
with the state it was taken for, and the marker's outputs where nothing was taken. -/
structure Claimed (env : Env) (t : Templates) (tx : Tx) (utxos : UtxoMap) (spends : List Spend)
    (c : Claims) : Prop where
  names : ∀ op n, c.1.lookup op = some (.name n) → (∃ op, utxos.lookup op = some (.name n)) ∨
    (∃ q ∈ everyPrediction env t spends, q.state = .name n) ∨
    ∃ s ∈ spends, AcceptedName env t utxos spends s n
  taken : ∀ j ∈ c.2, ∃ q, Carries env t tx q j ∧ c.1.lookup (tx.outpoint j) = some q.state ∧
    (q ∈ handled env t spends ∨ ∃ s ∈ spends, ∃ n, AcceptedName env t utxos spends s n ∧
      q = ⟨regBind t s.idx, .name n⟩)
  free : ∀ j < tx.outputs.length, j ∉ c.2 →
    c.1.lookup (tx.outpoint j) = (marked env t tx utxos).lookup (tx.outpoint j)

/-- Accepting the offer of an accepted name again is accepting an offer of the name before it. -/
theorem acceptedName_again {s s' : Spend} {n : NameState} {offer : OfferState}
    (h : AcceptedName env t utxos spends s n) (htracked : s'.tracked = .offer offer)
    (hentry : s'.entry = .offerAccept) (hkey : n.key = offer.key) :
    AcceptedName env t utxos spends s' (offerAccept n offer) := by
  obtain ⟨offer', n', -, -, hno, hkey', hn', rfl⟩ := h
  exact ⟨offer, n', htracked, hentry, hno, hkey, hn', rfl⟩

theorem claimed_marked : Claimed env t tx utxos spends (marked env t tx utxos, []) where
  names := by
    intro op n h
    unfold marked applyOfferMarker at h
    split at h
    · rw [lookup_insert_of] at h
      split at h
      · cases h
      · exact .inl ⟨op, h⟩
    · exact .inl ⟨op, h⟩
  taken := by simp
  free := fun _ _ _ => rfl

theorem claimed_action {c : Claims} (hc : Claimed env t tx utxos spends c) {a : Action}
    (ha : a ∈ actions env t spends) : Claimed env t tx utxos spends (runAction env t tx c a) := by
  unfold runAction
  split
  swap
  · exact hc
  next p hp =>
  unfold tryPlace
  split
  swap
  · exact hc
  next i hi =>
  obtain ⟨hfree, hcarries⟩ := findOutput_some hi
  have hlt : i < tx.outputs.length := Carries.lt (p := p) hcarries
  have horigin : p ∈ handled env t spends ∨ ∃ s ∈ spends, ∃ n,
      AcceptedName env t utxos spends s n ∧ p = ⟨regBind t s.idx, .name n⟩ := by
    refine (action_cases ha hp).imp_right ?_
    rintro ⟨s, hs, offer, op, n, htracked, hentry, hno, hlookup, hkey, rfl⟩
    refine ⟨s, hs, _, ?_, rfl⟩
    rcases hc.names op n hlookup with hn | hn | ⟨s', -, hn⟩
    · exact ⟨offer, n, htracked, hentry, hno, hkey, .inl hn, rfl⟩
    · exact ⟨offer, n, htracked, hentry, hno, hkey, .inr hn, rfl⟩
    · exact acceptedName_again hn htracked hentry hkey
  refine ⟨?_, ?_, ?_⟩
  · intro op n h
    rw [lookup_insert_of] at h
    split at h
    · have hstate : p.state = .name n := Option.some.inj h
      rcases horigin with hp | ⟨s, hs, n', hn', rfl⟩
      · exact .inr (.inl ⟨p, handled_subset hp, hstate⟩)
      · cases hstate
        exact .inr (.inr ⟨s, hs, hn'⟩)
    · exact hc.names op n h
  · intro j hj
    rcases List.mem_append.mp hj with hj | hj
    · obtain ⟨q, hq, hlookup, hfrom⟩ := hc.taken j hj
      refine ⟨q, hq, ?_, hfrom⟩
      rw [lookup_insert_of, if_neg, hlookup]
      intro heq
      exact hfree (outpoint_injective hq.lt hlt heq ▸ hj)
    · obtain rfl := List.mem_singleton.mp hj
      exact ⟨p, hcarries, Finmap.lookup_insert _, horigin⟩
  · intro j hj hnot
    rw [List.mem_append, not_or, List.mem_singleton] at hnot
    rw [lookup_insert_of, if_neg fun heq => hnot.2 (outpoint_injective hj hlt heq)]
    exact hc.free j hj hnot.1

theorem claimed_foldl {as : List Action} (has : ∀ a ∈ as, a ∈ actions env t spends) {c : Claims}
    (hc : Claimed env t tx utxos spends c) :
    Claimed env t tx utxos spends (as.foldl (runAction env t tx) c) :=
  List.foldlRecOn as _ hc fun _ hc a ha => claimed_action hc (has a ha)

/-- A state stays where it was placed. -/
theorem taken_foldl {as : List Action} {c : Claims} {i : ℕ} (hi : i ∈ c.2)
    (hlt : i < tx.outputs.length) : i ∈ (as.foldl (runAction env t tx) c).2 ∧
      (as.foldl (runAction env t tx) c).1.lookup (tx.outpoint i) = c.1.lookup (tx.outpoint i) := by
  refine List.foldlRecOn as _ (motive := fun d : Claims => i ∈ d.2 ∧
    d.1.lookup (tx.outpoint i) = c.1.lookup (tx.outpoint i)) ⟨hi, rfl⟩ ?_
  intro d hd a _
  unfold runAction
  split
  swap
  · exact hd
  next p _ =>
  unfold tryPlace
  split
  swap
  · exact hd
  next j hj =>
  obtain ⟨hfree, hcarries⟩ := findOutput_some hj
  have hjlt : j < tx.outputs.length := Carries.lt (p := p) hcarries
  refine ⟨List.mem_append_left _ hd.1, ?_⟩
  rw [lookup_insert_of, if_neg, hd.2]
  intro heq
  exact hfree (outpoint_injective hlt hjlt heq ▸ hd.1)

/-- Two requests for one state that one output carries are carried by the same outputs. -/
theorem carries_of_same_state {p q : Prediction} {i j : ℕ} (hp : Asked t spends p)
    (hq : Asked t spends q) (hstate : q.state = p.state) (hpi : Carries env t tx p i)
    (hqi : Carries env t tx q i) (hqj : Carries env t tx q j) : Carries env t tx p j := by
  obtain ⟨o, hget, hspk, hok⟩ := hqj
  refine ⟨o, hget, by rw [hspk, hstate], ?_⟩
  obtain ⟨oi, hgeti, -, hoki⟩ := hpi
  obtain ⟨oi', hgeti', -, hoki'⟩ := hqi
  rw [hgeti] at hgeti'
  cases hgeti'
  have hsome : p.bind.isSome = q.bind.isSome := by
    obtain ⟨pbind, pstate⟩ := p
    obtain ⟨qbind, qstate⟩ := q
    cases hstate
    cases pstate with
    | gap | name =>
      obtain ⟨s, -, rfl⟩ := hp
      obtain ⟨s', -, rfl⟩ := hq
      simp [regBind]
    | shard =>
      obtain ⟨s, -, id, -, rfl⟩ := hp
      obtain ⟨s', -, id', -, rfl⟩ := hq
      rfl
    | offer => exact hp.elim
  cases hpb : p.bind with
  | none => rfl
  | some b =>
    rw [hpb] at hoki hsome
    obtain ⟨b', hqb⟩ := Option.isSome_iff_exists.mp hsome.symm
    rw [hqb] at hok hoki'
    simp only [bindingOk, Bool.or_eq_true, Bool.not_eq_true', decide_eq_true_eq] at hok hoki hoki' ⊢
    rcases hok with hunknown | hok
    · exact .inl hunknown
    rcases hoki with hunknown | hoki
    · exact .inl hunknown
    rcases hoki' with hunknown | hoki'
    · exact .inl hunknown
    exact .inr (by rw [hok, ← hoki', hoki])

theorem owned_tracked {p q : Prediction} {i : ℕ} (hp : p ∈ everyPrediction env t spends)
    (hown : OwnOutput env t tx utxos spends p i) (hq : q ∈ handled env t spends)
    (hstate : q.state = p.state) (hqi : Carries env t tx q i) :
    ((actions env t spends).foldl (runAction env t tx) (marked env t tx utxos, [])).1.lookup
      (tx.outpoint i) = some p.state := by
  obtain ⟨before, after, hsplit⟩ := List.append_of_mem (handled_sure hq)
  have hc : Claimed env t tx utxos spends
      (before.foldl (runAction env t tx) (marked env t tx utxos, [])) :=
    claimed_foldl (fun a ha => by simp [hsplit, ha]) claimed_marked
  rw [hsplit, List.foldl_append, List.foldl_cons]
  set c := before.foldl (runAction env t tx) (marked env t tx utxos, [])
  suffices hplaced : i ∈ (runAction env t tx c (sure q)).2 ∧
      (runAction env t tx c (sure q)).1.lookup (tx.outpoint i) = some p.state by
    rw [(taken_foldl hplaced.1 hqi.lt).2, hplaced.2]
  rw [runAction_sure]
  by_cases hi : i ∈ c.2
  · -- The output is taken already, and only a request for the same state can have taken it.
    obtain ⟨q', hcarries, hlookup, hfrom⟩ := hc.taken i hi
    have hsame : q'.state = p.state := by
      rcases hfrom with hq' | ⟨s, hs, n, hn, rfl⟩
      · exact hown.distinct q' (handled_subset hq') hcarries
      · exact absurd hcarries (hown.unaccepted s hs n hn)
    have hkeep := @taken_foldl env t tx [sure q] c i hi hqi.lt
    rw [List.foldl_cons, List.foldl_nil, runAction_sure] at hkeep
    exact ⟨hkeep.1, by rw [hkeep.2, hlookup, hsame]⟩
  · unfold tryPlace
    cases hfind : findOutput tx (t.trackedSpk env q.state) c.2 q.bind with
    | none =>
      obtain ⟨o, hget, hspk, hok⟩ := hqi
      exact absurd (findOutput_none hfind hget hspk hok) hi
    | some j =>
      have hj : j = i := hown.only j (carries_of_same_state (everyPrediction_asked hp)
        (everyPrediction_asked (handled_subset hq)) hstate hown.carries hqi (findOutput_some hfind).2)
      subst hj
      exact ⟨by simp, by rw [← hstate]; exact Finmap.lookup_insert _⟩

/-- In a transaction with a fresh id, every continuation that has an output of its own is tracked
there exactly when, for each of them, the branch taken asks for that state at that output. -/
theorem continuations_tracked_iff (env : Env) (t : Templates) (r : Registry) (tx : Tx)
    (hfresh : FreshId r.utxos tx) :
    (∀ p ∈ everyPrediction env t (spendsOf t tx r.utxos), ∀ i,
        OwnOutput env t tx r.utxos (spendsOf t tx r.utxos) p i →
        (applyTx env t tx r).1.utxos.lookup (tx.outpoint i) = some p.state) ↔
      ∀ p ∈ everyPrediction env t (spendsOf t tx r.utxos), ∀ i,
        OwnOutput env t tx r.utxos (spendsOf t tx r.utxos) p i →
        ∃ q ∈ handled env t (spendsOf t tx r.utxos), q.state = p.state ∧ Carries env t tx q i := by
  refine forall₄_congr fun p hp i hown => ?_
  have hwork : (applyTx env t tx r).1.utxos.lookup (tx.outpoint i) =
      ((actions env t (spendsOf t tx r.utxos)).foldl (runAction env t tx)
        (marked env t tx r.utxos, [])).1.lookup (tx.outpoint i) := by
    rw [applyTx_utxos, applyUtxos_own rfl, ← applyWork_claims]; rfl
  rw [hwork]
  constructor
  · intro htracked
    have hc : Claimed env t tx r.utxos (spendsOf t tx r.utxos)
        ((actions env t (spendsOf t tx r.utxos)).foldl (runAction env t tx)
          (marked env t tx r.utxos, [])) := claimed_foldl (fun a ha => ha) claimed_marked
    by_cases hi : i ∈ ((actions env t (spendsOf t tx r.utxos)).foldl (runAction env t tx)
        (marked env t tx r.utxos, [])).2
    · obtain ⟨q, hcarries, hlookup, hfrom⟩ := hc.taken i hi
      rw [htracked] at hlookup
      rcases hfrom with hq | ⟨s, hs, n, hn, rfl⟩
      · exact ⟨q, hq, (Option.some.inj hlookup).symm, hcarries⟩
      · exact absurd hcarries (hown.unaccepted s hs n hn)
    · -- Nothing took the output, so it holds what the marker left there: an offer or nothing.
      rw [hc.free i hown.carries.lt hi] at htracked
      have hasked := everyPrediction_asked hp
      unfold marked applyOfferMarker at htracked
      have hnew : r.utxos.lookup (tx.outpoint i) = none :=
        Finmap.lookup_eq_none.mpr fun hmem => hfresh _ hmem rfl
      split at htracked
      · rw [lookup_insert_of] at htracked
        split at htracked
        · rw [Asked, ← Option.some.inj htracked] at hasked
          exact hasked.elim
        · rw [hnew] at htracked
          cases htracked
      · rw [hnew] at htracked
        cases htracked
  · rintro ⟨q, hq, hstate, hqi⟩
    exact owned_tracked hp hown hq hstate hqi

theorem alice_ownOutput : OwnOutput NamesSample.env NamesSample.templates
    NamesSample.registerAlice NamesSample.seeded.utxos
    (spendsOf NamesSample.templates NamesSample.registerAlice NamesSample.seeded.utxos)
    ⟨none, .name (NamesSample.aliceName (NamesSample.fill 7))⟩ 2 where
  carries := by decide +kernel
  only j hj := by
    have hall : ∀ j < 3, Carries NamesSample.env NamesSample.templates NamesSample.registerAlice
      ⟨none, .name (NamesSample.aliceName (NamesSample.fill 7))⟩ j → j = 2 := by decide +kernel
    exact hall j hj.lt hj
  distinct := by decide +kernel
  unaccepted s hs n hn := by
    have hnone : ∀ s ∈ spendsOf NamesSample.templates NamesSample.registerAlice
      NamesSample.seeded.utxos, s.tracked.isOffer = false := by decide +kernel
    obtain ⟨offer, -, hoffer, -⟩ := hn
    have := hnone s hs
    rw [hoffer] at this
    cases this

/-- The registration of `alice` takes the only branch that predicts anything. -/
theorem alice_continuations_tracked :
    (applyTx NamesSample.env NamesSample.templates NamesSample.registerAlice
        NamesSample.seeded).1.utxos.lookup NamesSample.aliceOutpoint =
      some (.name (NamesSample.aliceName (NamesSample.fill 7))) := by
  have hall : everyPrediction NamesSample.env NamesSample.templates
      (spendsOf NamesSample.templates NamesSample.registerAlice NamesSample.seeded.utxos) =
      handled NamesSample.env NamesSample.templates
      (spendsOf NamesSample.templates NamesSample.registerAlice NamesSample.seeded.utxos) := by
    decide +kernel
  refine (continuations_tracked_iff NamesSample.env NamesSample.templates NamesSample.seeded
    NamesSample.registerAlice (by decide +kernel)).mpr (fun p hp i hown => ?_)
    ⟨none, .name (NamesSample.aliceName (NamesSample.fill 7))⟩ (by decide +kernel) 2 alice_ownOutput
  exact ⟨p, by rwa [← hall], rfl, hown.carries⟩

end

/-- `bob` registered in the gap above `alice`, in the transaction that transfers `alice`. -/
def registerBobTransferAlice : Tx where
  id := NamesSample.fill 0x66
  inputs := [NamesSample.input (NamesSample.fill 0x11, 1)
      [ascii "bob", (NamesSample.fill 8).toList, (NamesSample.fill 3).toList,
        [0x00, 0x6c, 0x50, 0xc4, 0xa0, 0x01], [1], [], []]
      [0x86, 0x67, 0xaf, 0x5e] (NamesSample.templates.gap.redeem NamesSample.aliceRight.encode),
    NamesSample.input NamesSample.aliceOutpoint [(NamesSample.fill 8).toList]
      [0x79, 0x4d, 0xca, 0x54]
      (NamesSample.templates.name.redeem (NamesSample.aliceName (NamesSample.fill 7)).encode)]
  outputs := [
    NamesSample.output (NamesSample.templates.gapSpk NamesSample.env NamesSample.bobLeft),
    NamesSample.output (NamesSample.templates.gapSpk NamesSample.env NamesSample.bobRight),
    NamesSample.output (NamesSample.templates.nameSpk NamesSample.env NamesSample.bobName),
    NamesSample.output (NamesSample.templates.nameSpk NamesSample.env
      (NamesSample.aliceName (NamesSample.fill 8)))]
  payload := []
  acceptingBlock := NamesSample.fill 0xbd
  acceptingDaa := 585800020
  blockTime := NamesSample.now
  inputs_le := by decide
  outputs_le := by decide
  inputs_ne_id := by decide

/-- The transferred name, at output 3, is consumed and not tracked again. -/
theorem transfer_beside_register_lost :
    ¬ ∀ (env : Env) (t : Templates) (r : Registry) (tx : Tx), FreshId r.utxos tx →
      ∀ p ∈ everyPrediction env t (spendsOf t tx r.utxos), ∀ i,
        OwnOutput env t tx r.utxos (spendsOf t tx r.utxos) p i →
        (applyTx env t tx r).1.utxos.lookup (tx.outpoint i) = some p.state := by
  intro h
  set r := (applyTx NamesSample.env NamesSample.templates NamesSample.registerAlice
    NamesSample.seeded).1 with hr
  have hlost : (applyTx NamesSample.env NamesSample.templates registerBobTransferAlice
      r).1.utxos.lookup (registerBobTransferAlice.outpoint 3) = none := by rw [hr]; decide +kernel
  have htracked := h NamesSample.env NamesSample.templates r registerBobTransferAlice
    (by rw [hr]; decide +kernel) ⟨none, .name (NamesSample.aliceName (NamesSample.fill 8))⟩
    (by rw [hr]; decide +kernel) 3 {
      carries := by decide +kernel
      only := fun j hj => by
        have hall : ∀ j < 4, Carries NamesSample.env NamesSample.templates registerBobTransferAlice
          ⟨none, .name (NamesSample.aliceName (NamesSample.fill 8))⟩ j → j = 3 := by decide +kernel
        exact hall j hj.lt hj
      distinct := by rw [hr]; decide +kernel
      unaccepted := fun s hs n hn => by
        have hnone : ∀ s ∈ spendsOf NamesSample.templates registerBobTransferAlice r.utxos,
          s.tracked.isOffer = false := by rw [hr]; decide +kernel
        obtain ⟨offer, -, hoffer, -⟩ := hn
        have := hnone s hs
        rw [hoffer] at this
        cases this }
  rw [hlost] at htracked
  cases htracked

end KaChatIndexer.NamesContinuations

import KaChatIndexer.NamesApply

/-!
# Predictions

Every branch of `apply_spends` looks for the outputs of a list of predicted states, one after the
other. Here the branches are reduced to that list: the UTXO map and the taken outputs after
`apply_spends` are a fold over the `actions` of the spends.
-/
namespace KaChatIndexer.NamesPredictions
open ByteStrings NamesCodec NamesState NamesEnv NamesTransition NamesTemplates NamesRegistry
open NamesApply FinmapPatch

/-- A predicted state with the binding its output must carry. -/
structure Prediction where
  bind : Option (ℕ × Bytes32)
  state : Tracked
  deriving DecidableEq

/-- What the branches change besides events. -/
abbrev Claims := UtxoMap × List ℕ

def Work.claims (w : Work) : Claims := (w.utxos, w.used)

section
variable (env : Env) (t : Templates) (tx : Tx)

def tryPlace (c : Claims) (p : Prediction) : Claims :=
  match findOutput tx (t.trackedSpk env p.state) c.2 p.bind with
  | some i => (c.1.insert (tx.outpoint i) p.state, c.2 ++ [i])
  | none => c

/-- What one spend asks for, given the UTXOs tracked at that point. -/
abbrev Action := UtxoMap → Option Prediction

def runAction (c : Claims) (a : Action) : Claims :=
  match a c.1 with
  | some p => tryPlace env t tx c p
  | none => c

def sure (p : Prediction) : Action := fun _ => some p

def pricePredictions (priceId : Bytes32) (ins : List (ℕ × PriceState)) (s : Spend) :
    List Prediction :=
  match s.tracked, s.entry with
  | .shard cur, .priceUse => [⟨some (s.idx, priceId), .shard cur⟩]
  | .shard _, .priceUpdate =>
      match updateArgs s.sig with
      | none => []
      | some (authority, prices) =>
        ins.map fun j => ⟨some (j.1, priceId), .shard ⟨j.2.shard, authority, prices⟩⟩
  | _, _ => []

def exitPredictions (spends : List Spend) : List Prediction :=
  match spends.findSome? mergeGap, spends.findSome? absorbedGap with
  | some (auth, loGap), some hiGap => [⟨regBind t auth, .gap (mergeGaps loGap hiGap)⟩]
  | _, _ => []

def splitPredictions (auth : ℕ) (split : GapState × GapState × NameState) : List Prediction :=
  [⟨regBind t auth, .gap split.1⟩, ⟨regBind t auth, .gap split.2.1⟩,
    ⟨regBind t auth, .name split.2.2⟩]

def registerPredictions (s : Spend) : List Prediction :=
  match s.tracked with
  | .gap gap =>
    match registerArgs s.sig with
    | none => []
    | some (name, owner, now, years) =>
      splitPredictions t s.idx (registerWithPeriod env gap name owner now years t.periodMs)
  | _ => []

def importPredictions (s : Spend) : List Prediction :=
  match s.tracked with
  | .gap gap =>
    match importArgs s.sig with
    | none => []
    | some (name, owner, periodStart, expiresAt) =>
      splitPredictions t s.idx (importName env gap name owner periodStart expiresAt)
  | _ => []

def namePredictions (s : Spend) : List Prediction :=
  match s.tracked with
  | .name old =>
    match continueName t.periodMs false old s.entry s.sig with
    | some (ns, _) => [⟨regBind t s.idx, .name ns⟩]
    | none => []
  | _ => []

/-- An offer accepted without a name transfer asks for the tracked name of its key. -/
def acceptActions (spends : List Spend) (s : Spend) : List Action :=
  match s.tracked with
  | .offer offer =>
    if s.entry = .offerAccept ∧ ¬ hasEntry spends .nameTransfer then
      [fun utxos => (nameByKey env utxos offer.key).map fun x =>
        ⟨regBind t s.idx, .name (offerAccept x.2 offer)⟩]
    else []
  | _ => []

def priceSpendPredictions (spends : List Spend) : List Prediction :=
  match t.priceId with
  | none => []
  | some priceId => spends.flatMap (pricePredictions priceId (shardIns spends))

/-- The branch taken: an exit, else the first register, else the first import, else every name
continuation. -/
def branchActions (spends : List Spend) : List Action :=
  if hasEntry spends .gapMerge then (exitPredictions t spends).map sure
  else if hasEntry spends .gapRegister then
    ((spends.find? fun s => s.entry = .gapRegister).toList.flatMap (registerPredictions env t)).map sure
  else if hasEntry spends .gapImport then
    ((spends.find? fun s => s.entry = .gapImport).toList.flatMap (importPredictions env t)).map sure
  else spends.flatMap fun s => (namePredictions t s).map sure ++ acceptActions env t spends s

def actions (spends : List Spend) : List Action :=
  (priceSpendPredictions t spends).map sure ++ branchActions env t spends

theorem runAction_sure (c : Claims) (p : Prediction) :
    runAction env t tx c (sure p) = tryPlace env t tx c p := rfl

theorem foldl_sure (ps : List Prediction) (c : Claims) :
    (ps.map sure).foldl (runAction env t tx) c = ps.foldl (tryPlace env t tx) c := by
  rw [List.foldl_map]; rfl

variable {env t tx}

theorem place_claims (bind : Option (ℕ × Bytes32)) (s : Tracked) (w : Work) :
    Work.claims ((place tx (t.trackedSpk env s) bind s w).getD w) =
      tryPlace env t tx (Work.claims w) ⟨bind, s⟩ := by
  unfold place tryPlace
  cases h : findOutput tx (t.trackedSpk env s) w.used bind <;> simp [Work.claims, h]

/-- `place_claims` for a branch that goes on with `f` where the output was found. -/
theorem place_claims_with {bind : Option (ℕ × Bytes32)} {s : Tracked} {w : Work} {f : Work → Work}
    (hf : ∀ w, Work.claims (f w) = Work.claims w) :
    Work.claims (match place tx (t.trackedSpk env s) bind s w with
      | some w => f w
      | none => w) = tryPlace env t tx (Work.claims w) ⟨bind, s⟩ := by
  rw [← place_claims]
  cases place tx (t.trackedSpk env s) bind s w with
  | none => rfl
  | some w' => exact hf w'

theorem moveShard_claims (priceId authority : Bytes32) (prices : List.Vector Int64 5)
    (ins : List (ℕ × PriceState)) (wm : Work × ℕ) :
    Work.claims (ins.foldl (moveShard env t tx priceId authority prices) wm).1 =
      (ins.map fun j => (⟨some (j.1, priceId), .shard ⟨j.2.shard, authority, prices⟩⟩ :
        Prediction)).foldl (tryPlace env t tx) (Work.claims wm.1) := by
  induction ins generalizing wm with
  | nil => rfl
  | cons j ins ih =>
    rw [List.foldl_cons, ih, List.map_cons, List.foldl_cons]
    congr 1
    rw [← place_claims]
    unfold moveShard
    simp only [Templates.trackedSpk]
    cases place tx (t.priceSpk env ⟨j.2.shard, authority, prices⟩) (some (j.1, priceId))
      (.shard ⟨j.2.shard, authority, prices⟩) wm.1 <;> rfl

theorem applyPriceSpend_claims (priceId : Bytes32) (ins : List (ℕ × PriceState)) (w : Work)
    (s : Spend) : Work.claims (applyPriceSpend env t tx priceId ins w s) =
      (pricePredictions priceId ins s).foldl (tryPlace env t tx) (Work.claims w) := by
  obtain ⟨idx, op, tracked, entry, sig⟩ := s
  cases tracked with
  | gap | name | offer => rfl
  | shard cur =>
    cases entry with
    | priceUse => exact place_claims (some (idx, priceId)) (.shard cur) w
    | priceUpdate =>
      simp only [applyPriceSpend, pricePredictions]
      cases updateArgs sig with
      | none => rfl
      | some args =>
        dsimp only
        rw [← moveShard_claims priceId args.1 args.2 ins (w, 0)]
        split <;> rfl
    | _ => rfl

theorem applyPriceSpends_claims (spends : List Spend) (w : Work) :
    Work.claims (applyPriceSpends env t tx spends w) =
      (priceSpendPredictions t spends).foldl (tryPlace env t tx) (Work.claims w) := by
  unfold applyPriceSpends priceSpendPredictions
  cases t.priceId with
  | none => rfl
  | some priceId =>
    generalize shardIns spends = ins
    dsimp only
    induction spends generalizing w with
    | nil => rfl
    | cons s spends ih =>
      rw [List.foldl_cons, ih, List.flatMap_cons, List.foldl_append, applyPriceSpend_claims]

theorem applyExit_claims (spends : List Spend) (w : Work) :
    Work.claims (applyExit env t tx spends w) =
      (exitPredictions t spends).foldl (tryPlace env t tx) (Work.claims w) := by
  unfold applyExit exitPredictions
  cases spends.findSome? mergeGap with
  | none => rfl
  | some lo =>
    cases spends.findSome? absorbedGap with
    | none => rfl
    | some hiGap => exact place_claims (regBind t lo.1) (.gap (mergeGaps lo.2 hiGap)) w

theorem placeSplit_claims (auth : ℕ) (left right : GapState) (nm : NameState) (e : Event)
    (w : Work) : Work.claims (placeSplit env t tx auth left right nm e w) =
      (splitPredictions t auth (left, right, nm)).foldl (tryPlace env t tx) (Work.claims w) := by
  have hgap (w : Work) (g : GapState) : Work.claims (placeGap env t tx (regBind t auth) w g) =
      tryPlace env t tx (Work.claims w) ⟨regBind t auth, .gap g⟩ :=
    place_claims (regBind t auth) (.gap g) w
  have hname (w : Work) := @place_claims_with env t tx (regBind t auth) (.name nm) w
    (fun w => w.emit e) fun _ => rfl
  simp only [splitPredictions, List.foldl_cons, List.foldl_nil]
  rw [← hgap, ← hgap]
  exact hname _

theorem applyRegister_claims (spends : List Spend) (w : Work) :
    Work.claims (applyRegister env t tx spends w) =
      ((spends.find? fun s => s.entry = .gapRegister).toList.flatMap
        (registerPredictions env t)).foldl (tryPlace env t tx) (Work.claims w) := by
  unfold applyRegister
  cases spends.find? fun s => s.entry = .gapRegister with
  | none => rfl
  | some s =>
    obtain ⟨auth, op, tracked, entry, sig⟩ := s
    cases tracked with
    | gap g =>
      simp only [Option.toList_some, List.flatMap_cons, List.flatMap_nil, List.append_nil,
        registerPredictions]
      cases registerArgs sig with
      | none => rfl
      | some args => exact placeSplit_claims auth _ _ _ _ w
    | name | offer | shard => rfl

theorem applyImport_claims (spends : List Spend) (w : Work) :
    Work.claims (applyImport env t tx spends w) =
      ((spends.find? fun s => s.entry = .gapImport).toList.flatMap
        (importPredictions env t)).foldl (tryPlace env t tx) (Work.claims w) := by
  unfold applyImport
  cases spends.find? fun s => s.entry = .gapImport with
  | none => rfl
  | some s =>
    obtain ⟨auth, op, tracked, entry, sig⟩ := s
    cases tracked with
    | gap g =>
      simp only [Option.toList_some, List.flatMap_cons, List.flatMap_nil, List.append_nil,
        importPredictions]
      cases importArgs sig with
      | none => rfl
      | some args => exact placeSplit_claims auth _ _ _ _ w
    | name | offer | shard => rfl

theorem recordName_claims (auth : ℕ) (ns old : NameState) (op : Op) (price years : Option Int64)
    (w : Work) : Work.claims (recordName env t tx auth ns op old price years w) =
      tryPlace env t tx (Work.claims w) ⟨regBind t auth, .name ns⟩ :=
  place_claims_with (s := .name ns) fun _ => rfl

/-- Whether an offer is accepted beside a continuation shows in its event only. -/
theorem continueName_state (periodMs : Int64) (accepted : Bool) (old : NameState) (e : Entry)
    (sig : SigScript) : (continueName periodMs accepted old e sig).map Prod.fst =
      (continueName periodMs false old e sig).map Prod.fst := by
  cases e <;> simp [continueName, Function.comp_def]

theorem applyNameSpend_claims (spends : List Spend) (w : Work) (s : Spend) :
    Work.claims (applyNameSpend env t tx spends w s) =
      ((namePredictions t s).map sure ++ acceptActions env t spends s).foldl
        (runAction env t tx) (Work.claims w) := by
  unfold applyNameSpend namePredictions acceptActions
  cases s.tracked with
  | gap | shard => rfl
  | name old =>
    have hstate := continueName_state t.periodMs (hasEntry spends .offerAccept) old s.entry s.sig
    dsimp only
    cases h : continueName t.periodMs (hasEntry spends .offerAccept) old s.entry s.sig <;>
      cases h' : continueName t.periodMs false old s.entry s.sig <;>
      simp only [h, h', Option.map_some, Option.map_none, reduceCtorEq, Option.some.injEq] at hstate
    · rfl
    · simp only [List.map_cons, List.map_nil, List.append_nil, List.foldl_cons, List.foldl_nil,
        runAction_sure, recordName_claims, hstate]
  | offer offer =>
    simp only [List.map_nil, List.nil_append]
    split
    · simp only [List.foldl_cons, List.foldl_nil, runAction, Work.claims]
      cases nameByKey env w.utxos offer.key with
      | none => rfl
      | some x => exact recordName_claims s.idx _ x.2 .offerAccepted none none w
    · rfl

theorem applyNameSpends_claims (all spends : List Spend) (w : Work) :
    Work.claims (spends.foldl (applyNameSpend env t tx all) w) =
      (spends.flatMap fun s => (namePredictions t s).map sure ++ acceptActions env t all s).foldl
        (runAction env t tx) (Work.claims w) := by
  induction spends generalizing w with
  | nil => rfl
  | cons s spends ih =>
    rw [List.foldl_cons, ih, List.flatMap_cons, List.foldl_append, applyNameSpend_claims]

/-- `apply_spends` tries the actions of the spends, in order. -/
theorem applySpends_claims (spends : List Spend) (w : Work) :
    Work.claims (applySpends env t tx spends w) =
      (actions env t spends).foldl (runAction env t tx) (Work.claims w) := by
  have hstart : Work.claims (applyOfferExits tx spends (applyPriceSpends env t tx spends w)) =
      (priceSpendPredictions t spends).foldl (tryPlace env t tx) (Work.claims w) :=
    applyPriceSpends_claims spends w
  unfold applySpends actions branchActions
  rw [List.foldl_append, foldl_sure, ← hstart]
  dsimp only
  generalize applyOfferExits tx spends (applyPriceSpends env t tx spends w) = w'
  split
  · rw [applyExit_claims, foldl_sure]
  split
  · rw [applyRegister_claims, foldl_sure]
  split
  · rw [applyImport_claims, foldl_sure]
  · rw [applyNameSpends_claims]

end

end KaChatIndexer.NamesPredictions

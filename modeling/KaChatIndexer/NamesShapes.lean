import KaChatIndexer.FirstFit
import KaChatIndexer.NamesReorg

/-!
# Documented transaction shapes

The rows of the transition table: a register or import that spends one gap, an exit, a single name
continuation, and transactions that touch no gap or name. `CoreStep` says what each of them does
to the tracked gaps and names and which event it reports, with no script or output left in it.
-/
namespace KaChatIndexer.NamesShapes
open ByteStrings NamesCodec NamesState NamesEnv NamesTransition NamesTemplates NamesRegistry
open NamesApply NamesPredictions NamesStep NamesReorg FinmapPatch FirstFit

/-- Gaps and names, as against offers and price shards. -/
def isCore : Tracked → Bool
  | .gap _ | .name _ => true
  | _ => false

def coreSpends (spends : List Spend) : List Spend := spends.filter fun s => isCore s.tracked

/-- Operations on names, as against those on offers and prices. -/
def onName : Op → Bool
  | .offer | .offerDecline | .offerWithdraw | .offerRefund | .prices | .priceAuthority => false
  | _ => true

def nameEvents (events : List Event) : List Event := events.filter fun e => onName e.op

theorem nameEvents_append (es fs : List Event) :
    nameEvents (es ++ fs) = nameEvents es ++ nameEvents fs := List.filter_append ..

theorem nameEvents_eq_nil {es : List Event} (h : ∀ e ∈ es, onName e.op = false) :
    nameEvents es = [] := List.filter_eq_nil_iff.mpr (by simpa using h)

section
variable (env : Env) (t : Templates) (tx : Tx) (spends : List Spend)

/-- Distinct outputs carry the predicted states, and no output of a price shard looks like one. -/
def AllPresent (ps : List Prediction) : Prop :=
  (∃ is, List.Forall₂ (Carries env t tx) ps is ∧ is.Nodup) ∧
    ∀ p ∈ ps, ∀ q ∈ priceSpendPredictions t spends, t.trackedSpk env q.state ≠ t.trackedSpk env p.state

/-- An offer accepted beside a name spend goes with a transfer; or with a buy by the offer's buyer,
whose continuation is the one output with its script. -/
def AcceptsBeside (s : Spend) (old ns : NameState) : Prop :=
  ∀ s' ∈ spends, s'.entry = .offerAccept → s.entry = .nameTransfer ∨
    s.entry = .nameBuy ∧ (∃ offer, s'.tracked = .offer offer ∧ offer.key = old.key ∧
      offer.buyer = ns.owner) ∧
      ∀ (i j : ℕ) (o o' : TxOutput), tx.outputs[i]? = some o → tx.outputs[j]? = some o' →
        o.scriptPublicKey = t.nameSpk env ns → o'.scriptPublicKey = t.nameSpk env ns → i = j

inductive Shape : Prop
  | register {s : Spend} {gap : GapState} {args : Bytes × Bytes32 × Int64 × Int64}
      (hcore : coreSpends spends = [s]) (hentry : s.entry = .gapRegister)
      (hgap : s.tracked = .gap gap) (hargs : registerArgs s.sig = some args)
      (hlo : gap.lo < nameKey env args.1) (hhi : nameKey env args.1 < gap.hi)
      (hout : AllPresent env t tx spends (registerPredictions env t s))
  | imported {s : Spend} {gap : GapState} {args : Bytes × Bytes32 × Int64 × Int64}
      (hcore : coreSpends spends = [s]) (hentry : s.entry = .gapImport)
      (hgap : s.tracked = .gap gap) (hargs : importArgs s.sig = some args)
      (hlo : gap.lo < nameKey env args.1) (hhi : nameKey env args.1 < gap.hi)
      (hout : AllPresent env t tx spends (importPredictions env t s))
  | exit {sm sn sa : Spend} {loGap hiGap : GapState} {n : NameState}
      (hcore : (coreSpends spends).Perm [sm, sn, sa])
      (hmerge : sm.tracked = .gap loGap ∧ sm.entry = .gapMerge)
      (hname : sn.tracked = .name n ∧ (sn.entry = .nameRelease ∨ sn.entry = .nameReclaim))
      (habsorbed : sa.tracked = .gap hiGap ∧ sa.entry = .gapAbsorbed)
      (hlo : loGap.hi = n.key) (hhi : n.key = hiGap.lo)
      (hout : AllPresent env t tx spends [⟨regBind t sm.idx, .gap (mergeGaps loGap hiGap)⟩])
  | continuation {s : Spend} {old ns : NameState} {op : Op} {price years : Option Int64}
      (hcore : coreSpends spends = [s]) (hname : s.tracked = .name old)
      (hnext : continueName t.periodMs (hasEntry spends .offerAccept) old s.entry s.sig =
        some (ns, op, price, years))
      (hout : AllPresent env t tx spends [⟨regBind t s.idx, .name ns⟩])
      (haccept : AcceptsBeside env t tx spends s old ns)
  | aside (hcore : coreSpends spends = []) (haccept : hasEntry spends .offerAccept = false)

end

/-- The event tells the continuation of `old` by `ns`. -/
def Continues (old ns : NameState) (e : Event) : Prop :=
  ns.key = old.key ∧ e.key = old.key ∧
    match e.op with
    | .transfer | .sale | .offerAccepted => ns.price = 0 ∧
        (ns.owner = old.owner ∧ e.toKey = none ∨
          ns.owner ≠ old.owner ∧ e.toKey = some ns.owner ∧ e.fromKey = some old.owner)
    | .list | .delist => ns.owner = old.owner ∧ e.price = some ns.price
    | .renew | .extend => ns.owner = old.owner ∧ ns.price = old.price
    | _ => False

/-- What a transaction does to the gaps and names of `m`: the outpoints it removes, the states it
adds, and the events it reports on names. -/
inductive CoreStep (m : UtxoMap) : List Outpoint → List (Outpoint × Tracked) → List Event → Prop
  | split {op left right minted : Outpoint} {gap : GapState} {n : NameState} {e : Event}
      (hgap : m.lookup op = some (.gap gap)) (hlo : gap.lo < n.key) (hhi : n.key < gap.hi)
      (hprice : n.price = 0) (hop : e.op = .register ∨ e.op = .import) (hkey : e.key = n.key)
      (hto : e.toKey = some n.owner) :
      CoreStep m [op] [(left, .gap ⟨gap.lo, n.key⟩), (right, .gap ⟨n.key, gap.hi⟩),
        (minted, .name n)] [e]
  | exit {op1 op2 op3 merged : Outpoint} {loGap hiGap : GapState} {n : NameState} {e : Event}
      (hlo : m.lookup op1 = some (.gap loGap)) (hn : m.lookup op2 = some (.name n))
      (hhi : m.lookup op3 = some (.gap hiGap)) (hlokey : loGap.hi = n.key) (hkeyhi : n.key = hiGap.lo)
      (hop : e.op = .release ∨ e.op = .reclaim) (hkey : e.key = n.key) :
      CoreStep m [op1, op2, op3] [(merged, .gap (mergeGaps loGap hiGap))] [e]
  | continued {op next : Outpoint} {old ns : NameState} {e : Event}
      (hold : m.lookup op = some (.name old)) (hevent : Continues old ns e) :
      CoreStep m [op] [(next, .name ns)] [e]
  | aside : CoreStep m [] [] []

/-- The gaps and names of `m'` are those of `m` without the removed and with the added ones, which
sit at new outpoints. -/
structure CorePatch (m m' : UtxoMap) (removed : List Outpoint) (added : List (Outpoint × Tracked)) :
    Prop where
  lookup : ∀ op s, isCore s = true → (m'.lookup op = some s ↔
    (op, s) ∈ added ∨ m.lookup op = some s ∧ op ∉ removed)
  nodup : (added.map Prod.fst).Nodup
  fresh : ∀ x ∈ added, x.1 ∉ m

section
variable {env : Env} {t : Templates} {tx : Tx} {utxos : UtxoMap}

theorem mem_coreSpends {spends : List Spend} {s : Spend} :
    s ∈ coreSpends spends ↔ s ∈ spends ∧ isCore s.tracked = true := List.mem_filter

theorem hasEntry_iff {spends : List Spend} {e : Entry} :
    hasEntry spends e = true ↔ ∃ s ∈ spends, s.entry = e := by
  simp [hasEntry]

/-- An entry of the gap or name contract is called by a spend of a gap or name. -/
theorem core_of_entry {s : Spend} (hs : s ∈ spendsOf t tx utxos)
    (h : s.entry.contract = .gap ∨ s.entry.contract = .name) :
    s ∈ coreSpends (spendsOf t tx utxos) := by
  rw [spend_contract hs] at h
  refine mem_coreSpends.mpr ⟨hs, ?_⟩
  cases hst : s.tracked <;> simp [hst, trackedContract] at h <;> rfl

/-- Whether an entry of these contracts is called shows in the spends of gaps and names. -/
theorem hasEntry_core {e : Entry} (h : e.contract = .gap ∨ e.contract = .name) :
    hasEntry (spendsOf t tx utxos) e = hasEntry (coreSpends (spendsOf t tx utxos)) e := by
  rw [Bool.eq_iff_iff, hasEntry_iff, hasEntry_iff]
  constructor
  · rintro ⟨s, hs, rfl⟩
    exact ⟨s, core_of_entry hs h, rfl⟩
  · rintro ⟨s, hs, rfl⟩
    exact ⟨s, (mem_coreSpends.mp hs).1, rfl⟩

/-- The first spend under an entry, where only one spend of a gap or name is made. -/
theorem find_entry {s : Spend} {e : Entry} (hcore : coreSpends (spendsOf t tx utxos) = [s])
    (hentry : s.entry = e) (h : e.contract = .gap ∨ e.contract = .name) :
    (spendsOf t tx utxos).find? (fun s => s.entry = e) = some s := by
  cases hfind : (spendsOf t tx utxos).find? (fun s => s.entry = e) with
  | none =>
    have hs : s ∈ coreSpends (spendsOf t tx utxos) := by simp [hcore]
    exact absurd hentry (by simpa using List.find?_eq_none.mp hfind s (mem_coreSpends.mp hs).1)
  | some s' =>
    have hentry' : s'.entry = e := by simpa using List.find?_some hfind
    have hs' := core_of_entry (List.mem_of_find?_eq_some hfind) (by rwa [hentry'])
    rw [hcore, List.mem_singleton] at hs'
    rw [hs']

theorem findSome?_unique {α β : Type} {f : α → Option β} {l : List α} {a : α} {b : β} (ha : a ∈ l)
    (hb : f a = some b) (h : ∀ x ∈ l, ∀ y, f x = some y → y = b) : l.findSome? f = some b := by
  cases hfind : l.findSome? f with
  | none => rw [List.findSome?_eq_none_iff.mp hfind a ha] at hb; cases hb
  | some y =>
    obtain ⟨x, hx, hy⟩ := List.exists_of_findSome?_eq_some hfind
    rw [h x hx y hy]

/-- The registry before the branch of `apply_spends`: marker, price shards and offer exits done. -/
def branchStart (env : Env) (t : Templates) (tx : Tx) (utxos : UtxoMap) : Work :=
  applyOfferExits tx (spendsOf t tx utxos) (applyPriceSpends env t tx (spendsOf t tx utxos)
    ⟨marked env t tx utxos, [], (applyOfferMarker env t tx utxos).2⟩)

/-- The branches of `apply_spends`. -/
def branch (env : Env) (t : Templates) (tx : Tx) (spends : List Spend) (w : Work) : Work :=
  if hasEntry spends .gapMerge then applyExit env t tx spends w
  else if hasEntry spends .gapRegister then applyRegister env t tx spends w
  else if hasEntry spends .gapImport then applyImport env t tx spends w
  else spends.foldl (applyNameSpend env t tx spends) w

theorem applyWork_branch :
    applyWork env t tx utxos = branch env t tx (spendsOf t tx utxos) (branchStart env t tx utxos) := by
  unfold applyWork branchStart
  dsimp only
  split
  · next h =>
    have hprice (w : Work) : applyPriceSpends env t tx [] w = w := by
      unfold applyPriceSpends
      cases t.priceId <;> rfl
    rw [h, hprice]
    simp [branch, hasEntry, applyOfferExits]
  · rfl

theorem price_state {spends : List Spend} {q : Prediction}
    (hq : q ∈ priceSpendPredictions t spends) : isCore q.state = false := by
  unfold priceSpendPredictions at hq
  split at hq
  · simp at hq
  · obtain ⟨s, -, hq⟩ := List.mem_flatMap.mp hq
    unfold pricePredictions at hq
    split at hq
    · rw [List.mem_singleton.mp hq]; rfl
    · split at hq
      · simp at hq
      · obtain ⟨j, -, rfl⟩ := List.mem_map.mp hq
        rfl
    · simp at hq

/-- Up to the branch, gaps and names are as before, and only outputs of shards are taken. -/
structure Started (env : Env) (t : Templates) (tx : Tx) (utxos : UtxoMap) (c : Claims) : Prop where
  core : ∀ op s, isCore s = true → (c.1.lookup op = some s ↔ utxos.lookup op = some s)
  used : ∀ j ∈ c.2, ∃ q ∈ priceSpendPredictions t (spendsOf t tx utxos), Carries env t tx q j

/-- Inserting an offer or a shard at a new outpoint leaves gaps and names as they are. -/
theorem insert_core {m : UtxoMap} {op' : Outpoint} {s' : Tracked} (hfresh : FreshId utxos tx)
    (hop' : op'.1 = tx.id) (hs' : isCore s' = false)
    (hm : ∀ op s, isCore s = true → (m.lookup op = some s ↔ utxos.lookup op = some s)) (op : Outpoint)
    (s : Tracked) (hs : isCore s = true) :
    (m.insert op' s').lookup op = some s ↔ utxos.lookup op = some s := by
  rw [lookup_insert_of]
  split
  · next hop =>
    have hnone : utxos.lookup op = none :=
      Finmap.lookup_eq_none.mpr fun hmem => hfresh op hmem (by rw [hop, hop'])
    rw [hnone]
    refine iff_of_false (fun h => ?_) (by simp)
    rw [← Option.some.inj h, hs'] at hs
    cases hs
  · exact hm op s hs

theorem started (hfresh : FreshId utxos tx) :
    Started env t tx utxos (Work.claims (branchStart env t tx utxos)) := by
  have hclaims : Work.claims (branchStart env t tx utxos) =
      (priceSpendPredictions t (spendsOf t tx utxos)).foldl (tryPlace env t tx)
        (marked env t tx utxos, []) := applyPriceSpends_claims ..
  rw [hclaims]
  refine List.foldlRecOn _ _ ?_ fun c hc q hq => ?_
  · refine ⟨?_, by simp⟩
    unfold marked applyOfferMarker
    split
    · exact insert_core hfresh rfl rfl fun _ _ _ => Iff.rfl
    · exact fun _ _ _ => Iff.rfl
  · unfold tryPlace
    split
    · next i hi =>
      refine ⟨insert_core hfresh rfl (price_state hq) hc.core, fun j hj => ?_⟩
      rcases List.mem_append.mp hj with hj | hj
      · exact hc.used j hj
      · rw [List.mem_singleton.mp hj]
        exact ⟨q, hq, (findOutput_some hi).2⟩
    · exact hc

theorem price_events (w : Work) (spends : List Spend) :
    nameEvents (applyPriceSpends env t tx spends w).events = nameEvents w.events := by
  unfold applyPriceSpends
  cases t.priceId with
  | none => rfl
  | some priceId =>
    have hplace (bind : Option (ℕ × Bytes32)) (spk : Bytes) (s : Tracked) (w : Work) :
        ((place tx spk bind s w).getD w).events = w.events := by
      unfold place
      cases findOutput tx spk w.used bind <;> rfl
    have hmove (authority : Bytes32) (prices : List.Vector Int64 5) (ins : List (ℕ × PriceState))
        (wm : Work × ℕ) : (ins.foldl (moveShard env t tx priceId authority prices) wm).1.events =
          wm.1.events := by
      refine List.foldlRecOn (motive := fun x : Work × ℕ => x.1.events = wm.1.events) ins _ rfl ?_
      intro x hx j _
      rw [← hx]
      unfold moveShard place
      dsimp only
      cases findOutput tx _ x.1.used _ <;> rfl
    refine List.foldlRecOn (motive := fun w' : Work => nameEvents w'.events = nameEvents w.events)
      spends _ rfl ?_
    intro w' hw' s _
    rw [← hw']
    unfold applyPriceSpend
    split
    · rw [hplace]
    · split
      · rfl
      · next authority prices _ =>
        dsimp only
        rw [← hmove authority prices (shardIns spends) (w', 0)]
        split
        · have hop (op : Op) (h : op = .priceAuthority ∨ op = .prices) (f g : Option Bytes32) :
              nameEvents [{ event op zero32 tx with fromKey := f, toKey := g }] = [] := by
            rcases h with rfl | rfl <;> rfl
          simp only [Work.emit, nameEvents_append]
          rw [hop _ (by split <;> simp), List.append_nil]
        · rfl
    · rfl

theorem branchStart_events : nameEvents (branchStart env t tx utxos).events = [] := by
  have hexit : nameEvents ((spendsOf t tx utxos).filterMap (offerExitEvent tx)) = [] := by
    refine nameEvents_eq_nil fun e he => ?_
    obtain ⟨s, -, he⟩ := List.mem_filterMap.mp he
    unfold offerExitEvent at he
    split at he
    · dsimp only at he
      split at he <;> cases he <;> rfl
    · cases he
  have hmarker : nameEvents (applyOfferMarker env t tx utxos).2 = [] := by
    unfold applyOfferMarker
    split <;> rfl
  unfold branchStart applyOfferExits
  rw [nameEvents_append, hexit, price_events, hmarker, List.append_nil]

end

end KaChatIndexer.NamesShapes

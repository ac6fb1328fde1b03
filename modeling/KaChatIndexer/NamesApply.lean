import KaChatIndexer.FinmapPatch
import KaChatIndexer.UndoLog
import KaChatIndexer.NamesRegistry

/-!
# The registry applier

Given an accepted transaction, find the tracked UTXOs it spends, predict the new states, look for
an output that carries each of them, and journal what changed. `Work` is the part of the registry
that the branches of `apply_spends` share and change: the UTXO map, the output indices already
taken, and the events so far.
-/
namespace KaChatIndexer.NamesApply
open ByteStrings NamesCodec NamesState NamesEnv NamesTransition NamesTemplates NamesProfile
open NamesRegistry FinmapPatch UndoLog

/-- A tracked UTXO that a transaction spends: the input's index, the outpoint, its state, the
entry called and the decoded signature script. -/
structure Spend where
  idx : ℕ
  outpoint : Outpoint
  tracked : Tracked
  entry : Entry
  sig : SigScript
  deriving DecidableEq

structure Work where
  utxos : UtxoMap
  used : List ℕ
  events : List Event

def Work.emit (w : Work) (e : Event) : Work := { w with events := w.events ++ [e] }

def hasEntry (spends : List Spend) (e : Entry) : Bool := spends.any fun s => s.entry = e

/-- The covenant test of `find_output`: with no binding asked for, or no binding reported on any
output, only the script counts. -/
def bindingOk (tx : Tx) (bind : Option (ℕ × Bytes32)) (o : TxOutput) : Bool :=
  match bind with
  | some (auth, id) =>
      !(tx.outputs.any fun o => o.covenant.isSome) ||
        o.covenant = some ⟨UInt16.ofNat auth, id⟩
  | none => true

/-- The first output not yet taken that has the script and the binding. -/
def findOutput (tx : Tx) (spk : Bytes) (used : List ℕ) (bind : Option (ℕ × Bytes32)) : Option ℕ :=
  (tx.outputs.zipIdx.find? fun (o, i) =>
    decide (i ∉ used) && decide (o.scriptPublicKey = spk) && bindingOk tx bind o).map Prod.snd

def regBind (t : Templates) (auth : ℕ) : Option (ℕ × Bytes32) := t.registryId.map fun id => (auth, id)

/-- `if let Some(i) = find_output(..) { utxos.insert((tx.id, i), s) }`; `none` when there is no
such output. -/
def place (tx : Tx) (spk : Bytes) (bind : Option (ℕ × Bytes32)) (s : Tracked) (w : Work) :
    Option Work :=
  (findOutput tx spk w.used bind).map fun i =>
    { w with utxos := w.utxos.insert (tx.outpoint i) s, used := w.used ++ [i] }

section
variable (env : Env) (t : Templates) (tx : Tx)

/-- The new authority and the five prices of `update(newAuthority, n1..n5, sig)`. -/
def updateArgs (sig : SigScript) : Option (Bytes32 × List.Vector Int64 5) := do
  let authority ← sig.argBytes32 0
  let p1 ← sig.argI64 1
  let p2 ← sig.argI64 2
  let p3 ← sig.argI64 3
  let p4 ← sig.argI64 4
  let p5 ← sig.argI64 5
  if [p1, p2, p3, p4, p5].any (· < 0) then none
  else some (authority, ⟨[p1, p2, p3, p4, p5], rfl⟩)

def shardIns (spends : List Spend) : List (ℕ × PriceState) :=
  spends.filterMap fun s =>
    match s.tracked with
    | .shard p => some (s.idx, p)
    | _ => none

/-- Rewrite one shard of a price update; counts the shards that found their output. -/
def moveShard (priceId authority : Bytes32) (prices : List.Vector Int64 5)
    (wm : Work × ℕ) (ins : ℕ × PriceState) : Work × ℕ :=
  let next : PriceState := ⟨ins.2.shard, authority, prices⟩
  match place tx (t.priceSpk env next) (some (ins.1, priceId)) (.shard next) wm.1 with
  | some w => (w, wm.2 + 1)
  | none => wm

def applyPriceSpend (priceId : Bytes32) (ins : List (ℕ × PriceState)) (w : Work) (s : Spend) :
    Work :=
  match s.tracked, s.entry with
  | .shard cur, .priceUse =>
      (place tx (t.priceSpk env cur) (some (s.idx, priceId)) (.shard cur) w).getD w
  | .shard cur, .priceUpdate =>
      match updateArgs s.sig with
      | none => w
      | some (authority, prices) =>
        let (w, moved) := ins.foldl (moveShard env t tx priceId authority prices) (w, 0)
        if 0 < moved then
          let op := if prices = cur.prices then Op.priceAuthority else Op.prices
          w.emit { event op zero32 tx with fromKey := some cur.authority, toKey := some authority }
        else w
  | _, _ => w

def applyPriceSpends (spends : List Spend) (w : Work) : Work :=
  match t.priceId with
  | none => w
  | some priceId => spends.foldl (applyPriceSpend env t tx priceId (shardIns spends)) w

/-- The event of an offer exit that carries no name: decline, withdraw, refund. -/
def offerExitEvent (s : Spend) : Option Event :=
  match s.tracked with
  | .offer o =>
    let exit (op : Op) : Event := { event op o.key tx with toKey := some o.buyer, fromKey := o.seller }
    match s.entry with
    | .offerDecline => some (exit .offerDecline)
    | .offerWithdraw => some (exit .offerWithdraw)
    | .offerRefund => some (exit .offerRefund)
    | _ => none
  | _ => none

def applyOfferExits (spends : List Spend) (w : Work) : Work :=
  { w with events := w.events ++ spends.filterMap (offerExitEvent tx) }

def mergeGap (s : Spend) : Option (ℕ × GapState) :=
  match s.tracked, s.entry with
  | .gap g, .gapMerge => some (s.idx, g)
  | _, _ => none

def absorbedGap (s : Spend) : Option GapState :=
  match s.tracked, s.entry with
  | .gap g, .gapAbsorbed => some g
  | _, _ => none

def exitEvent (s : Spend) : Option Event :=
  match s.tracked with
  | .name n =>
    let op := if s.entry = .nameReclaim then Op.reclaim else Op.release
    some { event op n.key tx with fromKey := some n.owner }
  | _ => none

/-- Exit: collapse the two gaps around the released or reclaimed name. -/
def applyExit (spends : List Spend) (w : Work) : Work :=
  let w := match spends.findSome? mergeGap, spends.findSome? absorbedGap with
    | some (auth, loGap), some hiGap =>
      let merged := mergeGaps loGap hiGap
      (place tx (t.gapSpk env merged) (regBind t auth) (.gap merged) w).getD w
    | _, _ => w
  { w with events := w.events ++ spends.filterMap (exitEvent tx) }

/-- `register(name, ownerKey, salt, now, years, ..)`. -/
def registerArgs (sig : SigScript) : Option (Bytes × Bytes32 × Int64 × Int64) := do
  let name ← sig.argBytes 0
  let owner ← sig.argBytes32 1
  let now ← sig.argI64 3
  let years ← sig.argI64 4
  if isValidName name then some (name, owner, now, years) else none

/-- `import(name, owner, periodStart, expiresAt, ..)`. -/
def importArgs (sig : SigScript) : Option (Bytes × Bytes32 × Int64 × Int64) := do
  let name ← sig.argBytes 0
  let owner ← sig.argBytes32 1
  let periodStart ← sig.argI64 2
  let expiresAt ← sig.argI64 3
  if isValidName name then some (name, owner, periodStart, expiresAt) else none

def placeGap (bind : Option (ℕ × Bytes32)) (w : Work) (g : GapState) : Work :=
  (place tx (t.gapSpk env g) bind (.gap g) w).getD w

/-- The outputs of a register or import: two gaps, then the name with its event. -/
def placeSplit (auth : ℕ) (left right : GapState) (nm : NameState) (e : Event) (w : Work) : Work :=
  let bind := regBind t auth
  let w := [left, right].foldl (placeGap env t tx bind) w
  match place tx (t.nameSpk env nm) bind (.name nm) w with
  | some w => w.emit e
  | none => w

def applyRegister (spends : List Spend) (w : Work) : Work :=
  match spends.find? fun s => s.entry = .gapRegister with
  | some ⟨auth, _, .gap gap, _, sig⟩ =>
    match registerArgs sig with
    | none => w
    | some (name, owner, now, years) =>
      let (left, right, nm) := registerWithPeriod env gap name owner now years t.periodMs
      placeSplit env t tx auth left right nm
        { event .register nm.key tx with toKey := some nm.owner, years := some years } w
  | _ => w

def applyImport (spends : List Spend) (w : Work) : Work :=
  match spends.find? fun s => s.entry = .gapImport with
  | some ⟨auth, _, .gap gap, _, sig⟩ =>
    match importArgs sig with
    | none => w
    | some (name, owner, periodStart, expiresAt) =>
      let (left, right, nm) := importName env gap name owner periodStart expiresAt
      placeSplit env t tx auth left right nm
        { event .import nm.key tx with toKey := some nm.owner } w
  | _ => w

/-- The event of a name continuation: owners are named only when the owner changed. -/
def nameEvent (op : Op) (old ns : NameState) (price years : Option Int64) : Event :=
  let e := { event op ns.key tx with price := price, years := years }
  if old.owner ≠ ns.owner then { e with fromKey := some old.owner, toKey := some ns.owner } else e

def recordName (auth : ℕ) (ns : NameState) (op : Op) (old : NameState)
    (price years : Option Int64) (w : Work) : Work :=
  match place tx (t.nameSpk env ns) (regBind t auth) (.name ns) w with
  | some w => w.emit (nameEvent tx op old ns price years)
  | none => w

/-- The new state of a name under a continuing entry, with its op and the event's price and
years. `accepted` tells a transfer co-spent with an offer accept. -/
def continueName (periodMs : Int64) (accepted : Bool) (old : NameState) (entry : Entry)
    (sig : SigScript) : Option (NameState × Op × Option Int64 × Option Int64) :=
  match entry with
  | .nameTransfer => (sig.argBytes32 0).map fun owner =>
      (nameTransfer old owner, if accepted then .offerAccepted else .transfer, none, none)
  | .nameBuy => (sig.argBytes32 0).map fun owner =>
      (nameTransfer old owner, .sale, some old.price, none)
  | .nameList => (sig.argI64 0).map fun price =>
      (nameList old price, if price = 0 then .delist else .list, some price, none)
  | .nameRenew => (sig.argI64 0).map fun years =>
      (nameRenewWithPeriod old years periodMs, .renew, none, some years)
  | .nameExtend => (sig.argI64 0).map fun years =>
      (nameExtendWithPeriod old years periodMs, .extend, none, some years)
  | _ => none

/-- One step of the per-name loop: a name continuation, or a v2 offer accept that comes without
a name transfer. -/
def applyNameSpend (spends : List Spend) (w : Work) (s : Spend) : Work :=
  match s.tracked with
  | .name old =>
    match continueName t.periodMs (hasEntry spends .offerAccept) old s.entry s.sig with
    | some (ns, op, price, years) => recordName env t tx s.idx ns op old price years w
    | none => w
  | .offer offer =>
    if s.entry = .offerAccept ∧ ¬ hasEntry spends .nameTransfer then
      match nameByKey env w.utxos offer.key with
      | some (_, name) =>
        recordName env t tx s.idx (offerAccept name offer) .offerAccepted name none none w
      | none => w
    else w
  | _ => w

def applySpends (spends : List Spend) (w : Work) : Work :=
  let w := applyPriceSpends env t tx spends w
  let w := applyOfferExits tx spends w
  if hasEntry spends .gapMerge then applyExit env t tx spends w
  else if hasEntry spends .gapRegister then applyRegister env t tx spends w
  else if hasEntry spends .gapImport then applyImport env t tx spends w
  else spends.foldl (applyNameSpend env t tx spends) w

/-- The offer named by a marker payload, in the layout of the registry's offer template. -/
def markerOffer : Option OfferState := do
  guard (isUtf8 tx.payload)
  let rest ← stripPrefix (ascii "kchat:1:offer:") tx.payload
  let offer : OfferState ←
    match t.offer.stateLen, rest.splitOn 0x3a with
    | 75, [keyHex, buyerHex, refundDec] => do
      some ⟨← decode32 env keyHex, ← decode32 env buyerHex, none, ← parseI64 refundDec⟩
    | 108, [keyHex, buyerHex, sellerHex, refundDec] => do
      some ⟨← decode32 env keyHex, ← decode32 env buyerHex, some (← decode32 env sellerHex),
        ← parseI64 refundDec⟩
    | _, _ => none
  if offer.refundAfter < 0 then none
  else if !usableKey env offer.buyer || offer.seller.any (fun s => !usableKey env s) then none
  else some offer

/-- The offer a transaction creates: a marker whose P2SH matches an output without covenant, the
first such output. -/
def createdOffer : Option (ℕ × TxOutput × OfferState) :=
  (markerOffer env t tx).bind fun offer =>
    (tx.outputs.zipIdx.find? fun (o, _) =>
      decide (o.scriptPublicKey = t.offerSpk env offer) && o.covenant.isNone).map
        fun (o, i) => (i, o, offer)

def offerEvent (o : TxOutput) (offer : OfferState) : Event :=
  { event .offer offer.key tx with
    toKey := some offer.buyer, fromKey := offer.seller, price := some o.value.toInt64 }

def applyOfferMarker (utxos : UtxoMap) : UtxoMap × List Event :=
  match createdOffer env t tx with
  | some (i, o, offer) => (utxos.insert (tx.outpoint i) (.offer offer), [offerEvent tx o offer])
  | none => (utxos, [])

/-- The profile record of a transaction, under its address: a valid record on a self-send. -/
def profileRecord : Option (Bytes × ProfileRow) := do
  guard (isUtf8 tx.payload)
  let json ← stripPrefix (ascii "kchat:1:profile:") tx.payload
  let _ ← parseProfile env json
  let addr ← tx.outputs.head?.map TxOutput.scriptPublicKey
  guard (tx.inputs.any fun i => i.spentScript ≠ [] && i.spentScript = addr)
  some (addr, json, (tx.acceptingDaa, tx.id))

/-- Store the record if it is newer; the address with the row it replaced is what undo needs. -/
def applyProfile (profiles : ProfileMap) : ProfileMap × Option (Bytes × Option ProfileRow) :=
  match profileRecord env tx with
  | none => (profiles, none)
  | some (addr, row) =>
    let prior := profiles.lookup addr
    if prior.all fun p => orderGt row.2 p.2 then (profiles.insert addr row, some (addr, prior))
    else (profiles, none)

/-- The spend an input makes: its outpoint is tracked, its signature script decodes, and the tag
names an entry of the contract being spent. -/
def spendOf (utxos : UtxoMap) (input : TxInput) (idx : ℕ) : Option Spend := do
  let tracked ← utxos.lookup input.previousOutpoint
  let sig ← decodeSigScript input.signatureScript
  let entry ← t.entry (trackedContract tracked) sig.dispatchTag
  some ⟨idx, input.previousOutpoint, tracked, entry, sig⟩

def spendsOf (utxos : UtxoMap) : List Spend :=
  tx.inputs.zipIdx.filterMap fun (input, idx) => spendOf t utxos input idx

/-- The UTXO map, taken outputs and events before the spent UTXOs are consumed. -/
def applyWork (utxos : UtxoMap) : Work :=
  let spends := spendsOf t tx utxos
  let (marked, events) := applyOfferMarker env t tx utxos
  let w : Work := ⟨marked, [], events⟩
  if spends = [] then w else applySpends env t tx spends w

/-- Apply one accepted transaction; also returns the events it produced. -/
def applyTx (r : Registry) : Registry × List Event :=
  let spends := spendsOf t tx r.utxos
  let w := applyWork env t tx r.utxos
  let (profiles, profilePrior) := applyProfile env tx r.profiles
  let removed := spends.map fun s => (s.outpoint, s.tracked)
  let utxos := eraseAll (removed.map Prod.fst) w.utxos
  let added := (env.iter utxos).1.filter fun op => op ∉ r.utxos
  let journal :=
    if added ≠ [] ∨ removed ≠ [] ∨ profilePrior.isSome then
      r.journal ++ [⟨tx.acceptingBlock, added, removed, profilePrior⟩]
    else r.journal
  (⟨utxos, profiles, journal⟩, w.events)

end

/-- Apply transactions in order; the registry after the last one. -/
def applyAll (env : Env) (t : Templates) (r : Registry) (txs : List Tx) : Registry :=
  txs.foldl (fun r tx => (applyTx env t tx r).1) r

/-- The events of a run, in order. -/
def runEvents (env : Env) (t : Templates) : Registry → List Tx → List Event
  | _, [] => []
  | r, tx :: txs => (applyTx env t tx r).2 ++ runEvents env t (applyTx env t tx r).1 txs

/-- Reverse one journal entry on the UTXOs and profiles. -/
def undoEntry (s : UtxoMap × ProfileMap) (e : UndoEntry) : UtxoMap × ProfileMap :=
  let utxos := insertAll e.removed (eraseAll e.added s.1)
  let profiles := match e.profile with
    | some (addr, some row) => s.2.insert addr row
    | some (addr, none) => s.2.erase addr
    | none => s.2
  (utxos, profiles)

/-- Undo every transaction accepted by a removed chain block, newest first. -/
def undoBlock (r : Registry) (block : Bytes32) : Registry :=
  let undo := r.journal.filter fun e => e.block = block
  let keep := r.journal.filter fun e => e.block ≠ block
  let s := undoAll undoEntry (r.utxos, r.profiles) undo
  ⟨s.1, s.2, keep⟩

/-- Drop undo entries beyond the most recent `keepLast`. -/
def pruneJournal (r : Registry) (keepLast : ℕ) : Registry :=
  { r with journal := r.journal.drop (r.journal.length - keepLast) }

def journalHasBlock (r : Registry) (block : Bytes32) : Bool :=
  r.journal.any fun e => e.block = block

end KaChatIndexer.NamesApply

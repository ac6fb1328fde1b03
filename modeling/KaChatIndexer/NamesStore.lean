import KaChatIndexer.NamesApply

/-!
# The names tables

What Postgres keeps of the registry: one row per tracked UTXO with the columns its kind uses, and
the undo journal as a JSON text in which each state stands in its on-chain encoding. The hex and
JSON crates are parameters.
-/
namespace KaChatIndexer.NamesStore
open ByteStrings NamesCodec NamesState NamesEnv NamesRegistry NamesApply

/-- A `serde_json::Value`; a number that is no `u64` is only known as such. -/
inductive Json
  | null
  | bool (b : Bool)
  | u64 (n : UInt64)
  | number
  | string (s : Bytes)
  | array (items : List Json)
  | object (members : List (Bytes × Json))

def Json.asStr : Json → Option Bytes
  | .string s => some s
  | _ => none

def Json.asU64 : Json → Option UInt64
  | .u64 n => some n
  | _ => none

def Json.asArray : Json → Option (List Json)
  | .array items => some items
  | _ => none

/-- `v[i]`: null where there is no such item. -/
def Json.item (v : Json) (i : ℕ) : Json :=
  match v with
  | .array items => items[i]?.getD .null
  | _ => .null

/-- `v[key]`: null where there is no such member. -/
def Json.member (v : Json) (key : Bytes) : Json :=
  match v with
  | .object members => ((members.find? fun m => m.1 = key).map Prod.snd).getD .null
  | _ => .null

/-- The crates that write and read the tables' texts. -/
structure TextEnv where
  /-- `hex::encode` -/
  hexEncode : Bytes → Bytes
  /-- `Value::to_string` -/
  print : Json → Bytes
  /-- `serde_json::from_str::<Value>` -/
  parse : Bytes → Option Json

/-- `u32::try_from(n).ok()`. -/
def u32OfU64 (n : UInt64) : Option UInt32 :=
  if n.toNat < 2 ^ 32 then some (UInt32.ofNat n.toNat) else none

section
variable (env : Env) (x : TextEnv)

def trackedEncode : Tracked → Bytes × Bytes
  | .gap g => (ascii "gap", x.hexEncode g.encode)
  | .name n => (ascii "name", x.hexEncode n.encode)
  | .offer o => (ascii "offer", x.hexEncode o.encode)
  | .shard p => (ascii "shard", x.hexEncode p.encode)

def trackedDecode (kind state : Bytes) : Option Tracked := do
  let b ← env.hexDecode state
  if kind = ascii "gap" then (GapState.decode b).map .gap
  else if kind = ascii "name" then (NameState.decode b).map .name
  else if kind = ascii "offer" then (OfferState.decode b).map .offer
  else if kind = ascii "shard" then (PriceState.decode b).map .shard
  else none

def outpointItems (op : Outpoint) : List Json :=
  [.string (x.hexEncode op.1.toList), .u64 op.2.toUInt64]

def entryValue (e : UndoEntry) : Json :=
  .object
    [(ascii "b", .string (x.hexEncode e.block.toList)),
      (ascii "a", .array (e.added.map fun op => .array (outpointItems x op))),
      (ascii "r", .array (e.removed.map fun (op, tracked) =>
        let (kind, state) := trackedEncode x tracked
        .array (outpointItems x op ++ [.string kind, .string state])))]

/-- The journal as a JSON value: profile undo is left out, and entries with nothing else go too. -/
def journalValue (journal : List UndoEntry) : Json :=
  .array ((journal.filter fun e => e.added ≠ [] ∨ e.removed ≠ []).map (entryValue x))

def encodeJournal (journal : List UndoEntry) : Bytes := x.print (journalValue x journal)

def outpointOf (v : Json) : Option Outpoint := do
  let txid ← decode32 env (← (v.item 0).asStr)
  let idx ← u32OfU64 (← (v.item 1).asU64)
  some (txid, idx)

def removedItemOf (v : Json) : Option (Outpoint × Tracked) := do
  some (← outpointOf env v, ← trackedDecode env (← (v.item 2).asStr) (← (v.item 3).asStr))

def entryOf (v : Json) : Option UndoEntry := do
  let added ← (← (v.member (ascii "a")).asArray).mapM (outpointOf env)
  let removed ← (← (v.member (ascii "r")).asArray).mapM (removedItemOf env)
  let block ← decode32 env (← (v.member (ascii "b")).asStr)
  some ⟨block, added, removed, none⟩

/-- `encode_journal` read back; `none` if any entry does not decode. -/
def decodeJournal (text : Bytes) : Option (List UndoEntry) := do
  (← (← x.parse text).asArray).mapM (entryOf env)

/-- One row of `names_utxos`; the columns a kind does not use stay null. -/
structure Row where
  txid : Bytes
  idx : Int32
  kind : Bytes
  lo : Option Bytes
  hi : Option Bytes
  key : Option Bytes
  name : Option Bytes
  owner : Option Bytes
  price : Option Int64
  periodStart : Option Int64
  expiresAt : Option Int64
  buyer : Option Bytes
  refundAfter : Option Int64
  seller : Option Bytes
  shard : Option Int64
  authority : Option Bytes
  prices : Option Bytes
  deriving DecidableEq

/-- The row of a kind with its outpoint alone. -/
def Row.blank (op : Outpoint) (kind : Bytes) : Row :=
  ⟨op.1.toList, op.2.toInt32, kind, none, none, none, none, none, none, none, none, none, none,
    none, none, none, none⟩

def rowOf (op : Outpoint) : Tracked → Row
  | .gap g => { Row.blank op (ascii "gap") with lo := some g.lo.toList, hi := some g.hi.toList }
  | .name n => { Row.blank op (ascii "name") with
      key := some n.key.toList, name := some n.nameStr, owner := some n.owner.toList,
      price := some n.price, periodStart := some n.periodStart, expiresAt := some n.expiresAt }
  | .offer o => { Row.blank op (ascii "offer") with
      key := some o.key.toList, buyer := some o.buyer.toList, refundAfter := some o.refundAfter,
      seller := o.seller.map List.Vector.toList }
  | .shard p => { Row.blank op (ascii "shard") with
      shard := some p.shard, authority := some p.authority.toList,
      prices := some ([0x2c].intercalate (p.prices.toList.map i64ToString)) }

/-- `b32(column)`. -/
def columnBytes32 (column : Option Bytes) : Option Bytes32 := column.bind (tryInto 32)

/-- `b32(column).unwrap_or_default()`. -/
def bytes32OrZero (column : Option Bytes) : Bytes32 := (columnBytes32 column).getD zero32

def rowOutpoint (r : Row) : Outpoint := (bytes32OrZero (some r.txid), r.idx.toUInt32)

/-- The state a row describes; `none` for a row that `load` skips. -/
def rowTracked (r : Row) : Option Tracked :=
  if r.kind = ascii "gap" then some (.gap ⟨bytes32OrZero r.lo, bytes32OrZero r.hi⟩)
  else if r.kind = ascii "name" then
    some (.name ⟨bytes32OrZero r.key, padName (r.name.getD []), bytes32OrZero r.owner,
      r.price.getD 0, r.periodStart.getD 0, r.expiresAt.getD 0⟩)
  else if r.kind = ascii "offer" then
    some (.offer ⟨bytes32OrZero r.key, bytes32OrZero r.buyer, columnBytes32 r.seller,
      r.refundAfter.getD 0⟩)
  else if r.kind = ascii "shard" then
    (tryPrices (((r.prices.getD []).splitOn 0x2c).filterMap parseI64)).map fun prices =>
      .shard ⟨r.shard.getD 0, bytes32OrZero r.authority, prices⟩
  else none
where
  tryPrices (prices : List Int64) : Option (List.Vector Int64 5) :=
    if h : prices.length = 5 then some ⟨prices, h⟩ else none

def loadUtxos (rows : List Row) : UtxoMap :=
  rows.foldl (fun utxos r =>
    match rowTracked r with
    | some tracked => utxos.insert (rowOutpoint r) tracked
    | none => utxos) ∅

/-- The live set, in iteration order. -/
def utxoEntries (utxos : UtxoMap) : List (Outpoint × Tracked) :=
  (env.iter utxos).1.filterMap fun op => (utxos.lookup op).map (Prod.mk op)

def utxoRows (utxos : UtxoMap) : List Row := (utxoEntries env utxos).map fun p => rowOf p.1 p.2

/-- What the tables `names_utxos` and `names_state` hold of a registry. -/
structure Tables where
  utxos : List Row
  undoJournal : Option Bytes
  checkpoint : Option Bytes32

def Tables.empty : Tables := ⟨[], none, none⟩

/-- `persist` with the live set rewritten. -/
def persist (r : Registry) (checkpoint : Option Bytes32) : Tables :=
  ⟨utxoRows env r.utxos, some (encodeJournal x r.journal), checkpoint⟩

/-- `load`: the registry of the rows, with the stored journal where it decodes. -/
def load (tables : Tables) : Registry :=
  { Registry.new with
    utxos := loadUtxos tables.utxos
    journal := (tables.undoJournal.bind (decodeJournal env x)).getD [] }

end

end KaChatIndexer.NamesStore

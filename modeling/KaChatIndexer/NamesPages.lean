import KaChatIndexer.CursorTexts
import KaChatIndexer.NamesStore
import KaChatIndexer.PagedReads
import Mathlib.Data.Prod.Lex

/-!
# The pages of the names API

Listings, lapsed and expired names are paged by the number of rows before a page, all names and the
refundable offers by the position of the last row, events by the id of the last row. A client follows
`next` from page to page. The database answers in the order of each query and as it likes among rows
that the order does not tell apart.
-/
namespace KaChatIndexer.NamesPages
open ByteStrings KaText NamesState NamesStore PagedReads CursorTexts
open ScheduledPosts (hexEncode)

/-- A row of `names_utxos` as the follower writes it. -/
structure StoredUtxo where
  outpoint : Outpoint
  tracked : Tracked
  createdDaa : Int64
  refuted : Bool

def StoredUtxo.row (u : StoredUtxo) : Row := rowOf u.outpoint u.tracked

/-- A row of `names_history`, with the columns that a page is selected by. -/
structure StoredEvent where
  id : Int64
  op : Bytes
  key : Bytes

/-- The two tables with their primary keys; ids come from a sequence that starts at one. -/
structure NamesDb where
  utxos : List StoredUtxo
  history : List StoredEvent
  outpoints : (utxos.map (·.outpoint)).Nodup
  ids : (history.map (·.id)).Nodup
  serial : ∀ e ∈ history, 0 < e.id.toInt

/-- Everything a handler needs once the registry is servable. -/
structure Ctx where
  graceMs : Int64
  indexedDaa : Int64
  now : Int64

structure PageQuery where
  cursor : Option Text
  length : Option Int64
  sort : Option Text

structure ApiError where
  status : ℕ
  error : Text
  message : Text
  deriving DecidableEq

def cursorTooFar : ApiError := ⟨400, "cursor_too_far".toList, "pages end 10000 rows deep".toList⟩

def invalidCursor : ApiError :=
  ⟨400, "invalid_cursor".toList, "use the next value of the previous page".toList⟩

def invalidName : ApiError :=
  ⟨400, "invalid_name".toList, "a name is 1-32 of a-z, 0-9 and inner hyphens".toList⟩

def internal : ApiError := ⟨500, "internal".toList, "database error".toList⟩

/-! ## The status of a name -/

inductive NameStatus | active | grace | lapsed
  deriving DecidableEq

def nameStatus (expiresAt graceMs nowMs : Int64) : NameStatus :=
  if nowMs < expiresAt then .active
  else if nowMs < expiresAt + graceMs then .grace
  else .lapsed

def rowStatus (c : Ctx) (u : StoredUtxo) : NameStatus :=
  nameStatus (u.row.expiresAt.getD 0) c.graceMs c.now

/-! ## What the queries select -/

def isName (u : StoredUtxo) : Bool := u.row.kind == ascii "name"

/-- `NAME_SELECT` -/
def nameSelect (u : StoredUtxo) : Bool := isName u && !u.refuted

/-- `u.price > 0 AND u.expires_at > now` -/
def listed (c : Ctx) (u : StoredUtxo) : Bool :=
  nameSelect u && u.row.price.any (0 < ·.toInt) && u.row.expiresAt.any (c.now.toInt < ·.toInt)

/-- `u.expires_at + grace <= now` -/
def lapsed (c : Ctx) (u : StoredUtxo) : Bool :=
  nameSelect u && u.row.expiresAt.any fun e => e.toInt + c.graceMs.toInt ≤ c.now.toInt

/-- `u.expires_at <= now AND u.expires_at + grace > now` -/
def inGrace (c : Ctx) (u : StoredUtxo) : Bool :=
  nameSelect u && u.row.expiresAt.any fun e =>
    e.toInt ≤ c.now.toInt && c.now.toInt < e.toInt + c.graceMs.toInt

/-- The sum of the two columns does not fit a `BIGINT`. -/
def overflows (c : Ctx) (u : StoredUtxo) : Bool :=
  u.row.expiresAt.any fun e =>
    e.toInt + c.graceMs.toInt < -2 ^ 63 || 2 ^ 63 ≤ e.toInt + c.graceMs.toInt

/-- `o.kind = 'offer' AND NOT o.refuted AND refund_after < indexed_daa` -/
def refundable (c : Ctx) (u : StoredUtxo) : Bool :=
  u.row.kind == ascii "offer" && !u.refuted &&
    decide ((u.row.refundAfter.getD 0).toInt < c.indexedDaa.toInt)

/-- When the database may give up on a sum: it must on a row that is selected, and it may on one that
is not, since it chooses which condition it looks at first. -/
structure Faults (db : NamesDb) (c : Ctx) (fault : ℕ → Bool) : Prop where
  forced : ∀ n, (∃ u ∈ db.utxos, nameSelect u = true ∧ overflows c u = true) → fault n = true
  possible : ∀ n, fault n = true → ∃ u ∈ db.utxos, isName u = true ∧ overflows c u = true

/-! ## Orders -/

/-- The order of the listings: by price where the client asks for it, newest first. -/
def listingKey (sort : Option Text) (u : StoredUtxo) : ℤ ×ₗ ℤ :=
  let newest := -u.createdDaa.toInt
  let price := (u.row.price.getD 0).toInt
  if sort = some "price_asc".toList then toLex (price, newest)
  else if sort = some "price_desc".toList then toLex (-price, newest)
  else toLex (0, newest)

def expiryKey (u : StoredUtxo) : ℤ := (u.row.expiresAt.getD 0).toInt

/-- The order of `BYTEA` values. -/
def bytea (b : Bytes) : List ℕ := b.map UInt8.toNat

/-- A row's place: a first column, then the outpoint. -/
def place {α : Type} (head : α) (txid : Bytes) (idx : ℤ) : α ×ₗ List ℕ ×ₗ ℤ :=
  toLex (head, toLex (bytea txid, idx))

def allPlace (u : StoredUtxo) : Option (List ℕ ×ₗ List ℕ ×ₗ ℤ) :=
  u.row.key.map fun key => place (bytea key) u.row.txid u.row.idx.toInt

def allKey (u : StoredUtxo) : List ℕ ×ₗ List ℕ ×ₗ ℤ :=
  place (bytea (u.row.key.getD [])) u.row.txid u.row.idx.toInt

def refundKey (u : StoredUtxo) : ℤ ×ₗ List ℕ ×ₗ ℤ :=
  place (u.row.refundAfter.getD 0).toInt u.row.txid u.row.idx.toInt

def eventKey (e : StoredEvent) : ℤᵒᵈ := OrderDual.toDual e.id.toInt

/-! ## Cursors -/

def maxOffset : ℕ := 10000

def cursor (q : Option Text) : ℕ := (((q.bind KaText.parseI64).map Int64.toInt).getD 0).toNat

def offsetCursor (q : Option Text) : Except ApiError ℕ :=
  if maxOffset < cursor q then .error cursorTooFar else .ok (cursor q)

def pageLen (q : PageQuery) : ℕ := (max 1 (min 200 ((q.length.map Int64.toInt).getD 50))).toNat

/-- A cursor of three fields; an empty one is none. -/
def placeCursor {α : Type} (start : α ×ₗ List ℕ ×ₗ ℤ) (head : Text → Option α) (q : Option Text) :
    Except ApiError (α ×ₗ List ℕ ×ₗ ℤ) :=
  match q.filter (· ≠ []) with
  | none => .ok start
  | some cur =>
    match cur.splitOn ':' with
    | [h, t, i] =>
      match head h, hexDecode t, parseI32 i with
      | some h, some txid, some idx => .ok (place h txid idx)
      | _, _, _ => .error invalidCursor
    | _ => .error invalidCursor

/-! ## Handlers -/

section
variable (order : ℕ → List StoredUtxo → List StoredUtxo) (db : NamesDb) (c : Ctx)

def offsetPage (fault : ℕ → Bool) (selected : StoredUtxo → Bool) (n : ℕ) (q : PageQuery) :
    Except ApiError (Page Text StoredUtxo) := do
  let off ← offsetCursor q.cursor
  if fault n then .error internal
  else .ok (cut (pageLen q) (fun _ => some (decimalText (off + pageLen q)))
    ((order n (db.utxos.filter selected)).drop off))

def listings (n : ℕ) (q : PageQuery) : Except ApiError (Page Text StoredUtxo) :=
  offsetPage order db (fun _ => false) (listed c) n q

def expiring (fault : ℕ → Bool) (n : ℕ) (q : PageQuery) : Except ApiError (Page Text StoredUtxo) :=
  offsetPage order db fault (lapsed c) n q

def grace (fault : ℕ → Bool) (n : ℕ) (q : PageQuery) : Except ApiError (Page Text StoredUtxo) :=
  offsetPage order db fault (inGrace c) n q

def placePage {α : Type} [LinearOrder α] (start : α ×ₗ List ℕ ×ₗ ℤ) (head : Text → Option α)
    (place : StoredUtxo → Option (α ×ₗ List ℕ ×ₗ ℤ)) (write : StoredUtxo → Text)
    (selected : StoredUtxo → Bool) (n : ℕ) (q : PageQuery) :
    Except ApiError (Page Text StoredUtxo) := do
  let after ← placeCursor start head q.cursor
  .ok (cut (pageLen q) (fun page => page.getLast?.map write)
    (order n (db.utxos.filter fun u => selected u && (place u).any (after < ·))))

def all (n : ℕ) (q : PageQuery) : Except ApiError (Page Text StoredUtxo) :=
  placePage order db (place [] [] (-1)) (fun t => (hexDecode t).map bytea) allPlace
    (fun u => joinFields [hexEncode (u.row.key.getD []), hexEncode u.row.txid,
      decimalText u.row.idx.toInt]) nameSelect n q

def offersRefundable (n : ℕ) (q : PageQuery) : Except ApiError (Page Text StoredUtxo) :=
  placePage order db (place (-2 ^ 63) [] (-1)) (fun t => (KaText.parseI64 t).map Int64.toInt)
    (fun u => some (refundKey u))
    (fun u => joinFields [decimalText (u.row.refundAfter.getD 0).toInt, hexEncode u.row.txid,
      decimalText u.row.idx.toInt]) (refundable c) n q

end

section
variable (order : ℕ → List StoredEvent → List StoredEvent) (db : NamesDb)

def eventsPage (filter : StoredEvent → Bool) (n : ℕ) (q : PageQuery) :
    Except ApiError (Page Text StoredEvent) :=
  let before : ℤ := if 0 < cursor q.cursor then cursor q.cursor else 2 ^ 63 - 1
  .ok (cut (pageLen q) (fun page => page.getLast?.map fun e => decimalText e.id.toInt)
    (order n (db.history.filter fun e => decide (e.id.toInt < before) && filter e)))

def normalizeName (input : Text) : Option Bytes :=
  let lowered := toAsciiLowercase (trim input)
  let name := if ".kachat".toList.isSuffixOf lowered then lowered.take (lowered.length - 7) else lowered
  (asciiBytes name).filter isValidName

def ofName (hash : Bytes → Bytes) (name : Bytes) (e : StoredEvent) : Bool :=
  e.key == hash name && e.op != ascii "offer"

def ofMarket (e : StoredEvent) : Bool :=
  [ascii "sale", ascii "list", ascii "offer", ascii "offer_accepted", ascii "offer_decline"].contains e.op

def ofRegistry (e : StoredEvent) : Bool := !([ascii "prices", ascii "price_authority"].contains e.op)

def nameHistory (hash : Bytes → Bytes) (name : Text) (n : ℕ) (q : PageQuery) :
    Except ApiError (Page Text StoredEvent) :=
  match normalizeName name with
  | none => .error invalidName
  | some name => eventsPage order db (ofName hash name) n q

def marketActivity (n : ℕ) (q : PageQuery) : Except ApiError (Page Text StoredEvent) :=
  eventsPage order db ofMarket n q

def namesActivity (n : ℕ) (q : PageQuery) : Except ApiError (Page Text StoredEvent) :=
  eventsPage order db ofRegistry n q

end

/-- A client that puts `next` into the cursor of the same query. -/
def follow {ρ : Type} (handler : ℕ → PageQuery → Except ApiError (Page Text ρ)) (q : PageQuery) (n : ℕ)
    (cursor : Option Text) : Except ApiError (Page (Option Text) ρ) :=
  (handler n { q with cursor }).map fun page => ⟨page.rows, page.next.map some⟩

end KaChatIndexer.NamesPages

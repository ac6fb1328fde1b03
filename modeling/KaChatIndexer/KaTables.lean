import KaChatIndexer.CursorTexts
import KaChatIndexer.KaHashtags
import Mathlib.Data.Prod.Lex
import Mathlib.Order.Interval.Finset.Nat
import Mathlib.Data.Int.Interval

/-!
# The KaPosts tables as they are read

The rows of the tables with the ids of their sequences, and the pages that the queries cut from them:
newest first, one row more than the limit to see whether there are more, and the position of the last
row as the cursor.
-/
namespace KaChatIndexer.KaTables
open ByteStrings KaText KaStore KaHashtags CursorTexts
open ScheduledPosts (hexEncode)

/-! ## Rows -/

/-- What a `BIGINT` column holds. -/
def Bigint (v : ℤ) : Prop := -2 ^ 63 ≤ v ∧ v < 2 ^ 63

instance {v : ℤ} : Decidable (Bigint v) := inferInstanceAs (Decidable (_ ∧ _))

structure Numbered (ρ : Type) where
  id : ℤ
  row : ρ

/-- Rows with times that a column holds, fewer than a sequence has ids. -/
def Countable {ρ : Type} (time : ρ → ℤ) (rows : List ρ) : Prop :=
  (∀ r ∈ rows, Bigint (time r)) ∧ rows.length < 2 ^ 63 - 1

instance {ρ : Type} {time : ρ → ℤ} {rows : List ρ} : Decidable (Countable time rows) :=
  inferInstanceAs (Decidable (_ ∧ _))

/-- The ids that a sequence gave to the rows of a table, from one on. -/
structure Serial {ρ : Type} (time : ρ → ℤ) (rows : List ρ) where
  ids : List ℤ
  length_eq : ids.length = rows.length
  nodup : ids.Nodup
  positive : ∀ id ∈ ids, 0 < id ∧ id < 2 ^ 63
  times : ∀ r ∈ rows, Bigint (time r)

namespace Serial
variable {ρ : Type} {time : ρ → ℤ} {rows : List ρ} (s : Serial time rows)

def numbered : List (Numbered ρ) := (s.ids.zip rows).map fun r => ⟨r.1, r.2⟩

theorem numbered_ids : s.numbered.map (·.id) = s.ids := by
  rw [numbered, List.map_map]
  exact List.map_fst_zip s.length_eq.le

theorem numbered_rows : s.numbered.map (·.row) = rows := by
  rw [numbered, List.map_map]
  exact List.map_snd_zip s.length_eq.ge

theorem id_mem {r : Numbered ρ} (h : r ∈ s.numbered) : r.id ∈ s.ids := by
  have hmem : r.id ∈ s.numbered.map (·.id) := List.mem_map_of_mem h
  rwa [s.numbered_ids] at hmem

theorem bigint {r : Numbered ρ} (h : r ∈ s.numbered) : Bigint r.id := by
  have hpositive := s.positive r.id (s.id_mem h)
  unfold Bigint
  omega

theorem eq_of_id {r r' : Numbered ρ} (h : r ∈ s.numbered) (h' : r' ∈ s.numbered) (hid : r.id = r'.id) :
    r = r' := List.inj_on_of_nodup_map (by rw [s.numbered_ids]; exact s.nodup) h h' hid

/-- A sequence gives out fewer than `2 ^ 63` ids. -/
theorem length_lt (s : Serial time rows) : rows.length < 2 ^ 63 := by
  have hsub : s.ids.toFinset ⊆ Finset.Ico 1 (2 ^ 63) := fun id hid =>
    Finset.mem_Ico.mpr (s.positive id (List.mem_toFinset.mp hid))
  have hcard := Finset.card_le_card hsub
  rw [List.toFinset_card_of_nodup s.nodup, s.length_eq, Int.card_Ico] at hcard
  omega

theorem row_mem {r : Numbered ρ} (h : r ∈ s.numbered) : r.row ∈ rows := by
  have hmem : r.row ∈ s.numbered.map (·.row) := List.mem_map_of_mem h
  rwa [s.numbered_rows] at hmem

theorem exists_numbered {r : ρ} (h : r ∈ rows) : ∃ id, ⟨id, r⟩ ∈ s.numbered := by
  have hmem : r ∈ s.numbered.map (·.row) := by rwa [s.numbered_rows]
  obtain ⟨⟨id, row⟩, hr, rfl⟩ := List.mem_map.mp hmem
  exact ⟨id, hr⟩

/-- The ids of a table from which no row was deleted. -/
def counted (h : Countable time rows) : Serial time rows where
  ids := (List.range rows.length).map fun i : ℕ => (i : ℤ) + 1
  length_eq := by rw [List.length_map, List.length_range]
  nodup := List.nodup_range.map fun i j h => by simpa using h
  positive := fun id hid => by
    obtain ⟨i, hi, rfl⟩ := List.mem_map.mp hid
    have hlength := h.2
    rw [List.mem_range] at hi
    omega
  times := h.1

end Serial

/-- A row of `kachat_broadcasts`. -/
structure ChannelMessage where
  transactionId : Bytes
  blockTime : ℤ
  channel : Text
  senderAddress : Text
  content : Text
  deriving DecidableEq

/-- The tables with their ids and unique indexes, the columns that are decoded at ingest, and `ILIKE` in
the collation of the database. -/
structure Tables where
  db : Db
  derived : Derived
  nicknameText : Bytes → Option Text
  channels : List ChannelMessage
  ilike : Text → Text → Bool
  contentIds : Serial Content.blockTime db.contents
  voteIds : Serial Vote.blockTime db.votes
  mentionIds : Serial Mention.blockTime db.mentions
  broadcastIds : Serial Broadcast.blockTime db.broadcasts
  tipIds : Serial Tip.blockTime db.tips
  relationIds : (kind : RelationKind) → Serial Relation.blockTime (db.relations kind)
  channelIds : Serial ChannelMessage.blockTime channels
  channelKeys : (channels.map (·.transactionId)).Nodup
  contentKeys : (db.contents.map (·.transactionId)).Nodup
  voteKeys : (db.votes.map (·.transactionId)).Nodup
  voters : (db.votes.map fun v => (v.postId, last32 v.senderPubkey)).Nodup
  tipKeys : (db.tips.map (·.transactionId)).Nodup
  relationKeys : ∀ kind, ((db.relations kind).map fun r =>
    (r.senderPubkey, fromSecond r.targetPubkey)).Nodup

namespace Tables
variable (t : Tables)

def contents : List (Numbered Content) := t.contentIds.numbered
def votes : List (Numbered Vote) := t.voteIds.numbered
def mentions : List (Numbered Mention) := t.mentionIds.numbered
def broadcasts : List (Numbered Broadcast) := t.broadcastIds.numbered
def tips : List (Numbered Tip) := t.tipIds.numbered
def relations (kind : RelationKind) : List (Numbered Relation) := (t.relationIds kind).numbered
def messages : List (Numbered ChannelMessage) := t.channelIds.numbered

end Tables

instance : Fintype RelationKind := ⟨{.block, .follow}, fun kind => by cases kind <;> decide⟩

/-- The rows fit into the tables and keep their unique indexes. -/
def Fits (db : Db) : Prop :=
  (Countable Content.blockTime db.contents ∧ Countable Vote.blockTime db.votes ∧
    Countable Mention.blockTime db.mentions ∧ Countable Broadcast.blockTime db.broadcasts ∧
    Countable Tip.blockTime db.tips ∧ ∀ kind, Countable Relation.blockTime (db.relations kind)) ∧
  (db.contents.map (·.transactionId)).Nodup ∧ (db.votes.map (·.transactionId)).Nodup ∧
    (db.votes.map fun v => (v.postId, last32 v.senderPubkey)).Nodup ∧
    (db.tips.map (·.transactionId)).Nodup ∧ ∀ kind, ((db.relations kind).map fun r =>
      (r.senderPubkey, fromSecond r.targetPubkey)).Nodup

instance {db : Db} : Decidable (Fits db) := inferInstanceAs (Decidable (_ ∧ _))

/-- These rows with the first ids, without channels, and nothing decoded or alike. -/
def Tables.ofDb (db : Db) (h : Fits db) : Tables where
  db
  derived := Derived.empty
  nicknameText := fun _ => none
  channels := []
  ilike := fun _ _ => false
  contentIds := .counted h.1.1
  voteIds := .counted h.1.2.1
  mentionIds := .counted h.1.2.2.1
  broadcastIds := .counted h.1.2.2.2.1
  tipIds := .counted h.1.2.2.2.2.1
  relationIds kind := .counted (h.1.2.2.2.2.2 kind)
  channelIds := .counted (by decide)
  channelKeys := by decide
  contentKeys := h.2.1
  voteKeys := h.2.2.1
  voters := h.2.2.2.1
  tipKeys := h.2.2.2.2.1
  relationKeys := h.2.2.2.2.2

/-! ## Cursors -/

/-- `as u64` of an `i64`. -/
def asU64 (v : ℤ) : ℕ := (v % 2 ^ 64).toNat

/-- `as i64` of a `u64`. -/
def asI64 (n : ℕ) : ℤ := if n < 2 ^ 63 then n else n - 2 ^ 64

/-- `str::parse::<u64>`. -/
def parseU64 (t : Text) : Option ℕ :=
  let digits := match t with
    | '+' :: ds => asciiBytes ds
    | ds => asciiBytes ds
  (digits.bind parseDigits).filter (· < 2 ^ 64)

/-- The timestamp and the id of a cursor; a text without an id stands for every row of its time. -/
def parseCompoundCursor (cursor : Text) : Option (ℕ × ℤ) :=
  match cursor.splitOn '_' with
  | [timestamp, id] => (parseU64 timestamp).bind fun ts => (KaText.parseI64 id).map (ts, ·.toInt)
  | _ => (parseU64 cursor).map (·, 2 ^ 63 - 1)

def createCompoundCursor (timestamp : ℕ) (id : ℤ) : Text :=
  decimalText timestamp ++ '_' :: decimalText id

/-- A time and an id: rows are in the order of these. -/
abbrev Position := ℤ ×ₗ ℤ

def cursorPosition (cursor : Text) : Option Position :=
  (parseCompoundCursor cursor).map fun c => toLex (asI64 c.1, c.2)

theorem asI64_asU64 {v : ℤ} (h : Bigint v) : asI64 (asU64 v) = v := by
  obtain ⟨hlow, hhigh⟩ := h
  unfold asI64 asU64
  split <;> omega

theorem asU64_lt (v : ℤ) : asU64 v < 2 ^ 64 := by
  unfold asU64
  omega

theorem digitText {n : ℕ} {c : Char} (h : c ∈ decimalText n) : 48 ≤ c.toNat ∧ c.toNat ≤ 57 := by
  rw [decimalText, if_neg (by omega)] at h
  exact toDigits_bounds h

theorem parseU64_decimalText {n : ℕ} (h : n < 2 ^ 64) : parseU64 (decimalText n) = some n := by
  have hascii : asciiBytes (decimalText n) = some (decimal n) := by
    have hall : (decimalText n).all (·.toNat < 0x80) = true := by
      rw [List.all_eq_true]
      intro c hc
      have := digitText hc
      simp
      omega
    rw [asciiBytes, if_pos hall, decimal, decimalText, if_neg (by omega), Int.natAbs_natCast]
  have hplain : parseU64 (decimalText n) =
      ((asciiBytes (decimalText n)).bind parseDigits).filter (· < 2 ^ 64) := by
    unfold parseU64
    split
    · next ds heq => exact absurd (digitText (heq ▸ List.mem_cons_self)) (by decide)
    · rfl
  rw [hplain, hascii, Option.bind_some, parseDigits_decimal, Option.filter_some, if_pos (by simpa using h)]

theorem parse_createCompoundCursor {timestamp : ℕ} {id : ℤ} (ht : timestamp < 2 ^ 64) (hid : Bigint id) :
    parseCompoundCursor (createCompoundCursor timestamp id) = some (timestamp, id) := by
  have hno (v : ℤ) : '_' ∉ decimalText v := fun h => by
    rcases decimalText_char h with h | h
    · exact absurd h (by decide)
    · exact absurd h (by decide)
  have hsplit : (createCompoundCursor timestamp id).splitOn '_' =
      [decimalText timestamp, decimalText id] := by
    have hjoin : (['_'].intercalate [decimalText timestamp, decimalText id]).splitOn '_' = _ :=
      List.splitOn_intercalate '_' (by simp [hno]) (by simp)
    simpa [createCompoundCursor, List.intercalate] using hjoin
  have hvalue : (Int64.ofInt id).toInt = id := Int64.toInt_ofInt_of_le hid.1 hid.2
  have hparse := parseI64_decimalText (Int64.ofInt id)
  rw [hvalue] at hparse
  rw [parseCompoundCursor, hsplit]
  simp only [parseU64_decimalText ht, Option.bind_some, hparse, Option.map_some, hvalue]

theorem cursorPosition_create {time id : ℤ} (ht : Bigint time) (hid : Bigint id) :
    cursorPosition (createCompoundCursor (asU64 time) id) = some (toLex (time, id)) := by
  rw [cursorPosition, parse_createCompoundCursor (asU64_lt time) hid, Option.map_some, asI64_asU64 ht]

/-! ## Pages -/

/-- Every handler asks for the newest rows first. -/
structure QueryOptions where
  limit : Option ℕ
  before : Option Text
  after : Option Text

structure PaginationMetadata where
  hasMore : Bool
  nextCursor : Option Text
  prevCursor : Option Text
  deriving DecidableEq

structure PaginatedResult (α : Type) where
  items : List α
  pagination : PaginationMetadata
  deriving DecidableEq

/-- A column that is `NULL` where `row.get` takes a value ends the request as well. -/
inductive DatabaseError where
  | invalidHex
  | unexpectedNull
  | invalidInput (message : Text)
  | queryError (message : Text)
  deriving DecidableEq

abbrev DatabaseResult (α : Type) := Except DatabaseError α

def decodeHexToBytes (hex : Text) : DatabaseResult Bytes :=
  match hexDecode hex with
  | some bytes => .ok bytes
  | none => .error .invalidHex

section
variable {ρ α : Type}

/-- A cursor that does not parse is no condition. -/
def QueryOptions.admits (options : QueryOptions) (p : Position) : Bool :=
  (options.before.bind cursorPosition).all (p < ·) && (options.after.bind cursorPosition).all (· < p)

/-- `ORDER BY block_time DESC, id DESC` -/
def newestFirst (position : ρ → Position) (rows : List ρ) : List ρ :=
  rows.insertionSort fun a b => position b ≤ position a

/-- The rows between the cursors, in the order of the query, one more than the limit. -/
def fetch (position : ρ → Position) (order : List ρ → List ρ) (options : QueryOptions) (limit : ℕ)
    (rows : List ρ) : List ρ :=
  (order (rows.filter fun r => options.admits (position r))).take (limit + 1)

def position (time : ρ → ℤ) (r : Numbered ρ) : Position := toLex (time r.row, r.id)

/-- The cursor made of a row reads as the row's position. -/
theorem Serial.cursorPosition {time : ρ → ℤ} {rows : List ρ} (s : Serial time rows) {r : Numbered ρ}
    (h : r ∈ s.numbered) :
    cursorPosition (createCompoundCursor (asU64 (time r.row)) r.id) = some (position time r) :=
  cursorPosition_create (s.times r.row (s.row_mem h)) (s.bigint h)

/-- The timestamp and the id that a record's cursor is made of. -/
class HasCompoundCursor (α : Type) where
  getTimestamp : α → ℕ
  getId : α → ℤ

export HasCompoundCursor (getTimestamp getId)

def cursorOf [HasCompoundCursor α] (a : α) : Text := createCompoundCursor (getTimestamp a) (getId a)

def createCompoundPaginationMetadata [HasCompoundCursor α] (items : List α) (hasMore : Bool) :
    PaginationMetadata where
  hasMore
  nextCursor := if hasMore then items.getLast?.map cursorOf else none
  prevCursor := items.head?.map cursorOf

/-- A page of the rows that were fetched. -/
def paginate [HasCompoundCursor α] (limit : ℕ) (item : ρ → α) (fetched : List ρ) : PaginatedResult α :=
  let items := (fetched.take limit).map item
  ⟨items, createCompoundPaginationMetadata items (limit < fetched.length)⟩

end

end KaChatIndexer.KaTables

import KaChatIndexer.ChatReads
import KaChatIndexer.PageRuns

/-!
# Polling group messages

Three endpoints go through the rows of blinded group ids: one by a cursor that is a key, one by the
newest block time of its page, and a batch of the first kind. The pages fit together exactly where
each message has one row and no two messages share a block time.
-/
namespace KaChatIndexer.ChatPolling
open ByteStrings ChatPayload ChatRows ChatBlocks ChatReads CursorPaging PageRuns Fallible

abbrev GroupRow := GroupMessageKeyByBlindedGroupId × AddressPayload

def groupRows (db : Database) : List GroupRow := db.rows.groupMessageByBlindedGroupId

/-! ## What is to be shown -/

/-- Each key is there once, its id has 32 bytes, and its row can be sent. -/
structure Stored (db : Database) : Prop where
  nodup : (keys (groupRows db)).Nodup
  sized : ∀ row ∈ groupRows db, row.1.blindedGroupId.length = 32
  reads : ∀ row ∈ groupRows db, (buildMessageRow db row.1 row.2 []).isOk

/-- A message is asked for under the text of its id. -/
abbrev Message := Bytes × TxId

def messageIn (r : GroupMessageResponse) : Message := (r.blindedGroupId, r.txId)

/-- A message of the id that is newer. -/
def Newer (db : Database) (start : ℕ) (m : Message) : Prop :=
  ∃ row ∈ groupRows db, decodeFixedHex 32 m.1 = some row.1.blindedGroupId ∧ row.1.txId = m.2 ∧
    start < row.1.blockTime

/-- The ids of one request. -/
def Requested (ids : List Bytes) : Prop :=
  ids.length ≤ 256 ∧ (∀ idHex ∈ ids, (decodeFixedHex 32 idHex).isSome) ∧
    (ids.map (decodeFixedHex 32)).Nodup

def askSince (db : Database) (ids : List Bytes) (limit : Option ℕ) (since : ℕ) :
    List GroupMessageResponse :=
  ((postGroupMessagesSince db ids since limit).toOption.map (·.1)).getD []

/-- The block time to go on from. -/
def nextSince (db : Database) (ids : List Bytes) (limit : Option ℕ) (since : ℕ)
    (_ : List GroupMessageResponse) : ℕ :=
  ((postGroupMessagesSince db ids since limit).toOption.map (·.2)).getD since

/-- Polling from a block time brings every newer message of the ids once. -/
def SinceExact (db : Database) : Prop :=
  ∀ ids, Requested ids → ∀ limit ≠ some 0, ∀ start,
    Exactly (askSince db ids limit) (nextSince db ids limit) messageIn
      (fun m => m.1 ∈ ids ∧ Newer db start m) start

def askAfter (db : Database) (idHex : Bytes) (limit : Option ℕ)
    (cursor : Option GroupMessageKeyByBlindedGroupId) : List GroupMessageResponse :=
  (getGroupMessagesByBlindedGroupId db ⟨limit, none, cursor, idHex⟩).toOption.getD []

def nextCursor (_ : Option GroupMessageKeyByBlindedGroupId) (page : List GroupMessageResponse) :
    Option GroupMessageKeyByBlindedGroupId :=
  page.getLast?.map (·.cursor)

/-- Following the cursor brings every message of an id once. -/
def CursorExact (db : Database) : Prop :=
  ∀ idHex, (decodeFixedHex 32 idHex).isSome → ∀ limit ≠ some 0,
    Exactly (askAfter db idHex limit) nextCursor (·.txId)
      (fun txId => ∃ row ∈ groupRows db, decodeFixedHex 32 idHex = some row.1.blindedGroupId ∧
        row.1.txId = txId) none

/-- Each lane is what the endpoint for one id answers. -/
def LanesAgree (db : Database) : Prop :=
  ∀ queries, queries.length ≤ 64 → ∀ results,
    postGroupMessagesByBlindedGroupIds db queries = .ok results ↔
      List.Forall₂ (fun q result => result.1 = q.blindedGroupId ∧
        getGroupMessagesByBlindedGroupId db ⟨q.limit, none, q.cursor, q.blindedGroupId⟩ =
          .ok result.2) queries results

/-- Each message has one row, and no two of them share a block time. -/
structure Single (db : Database) : Prop where
  bounded : ∀ row ∈ groupRows db, row.1.blockTime < lastTime
  one : ∀ row ∈ groupRows db, ∀ row' ∈ groupRows db,
    row.1.blindedGroupId = row'.1.blindedGroupId → row.1.txId = row'.1.txId → row.1 = row'.1
  apart : ∀ row ∈ groupRows db, ∀ row' ∈ groupRows db,
    row.1.blockTime = row'.1.blockTime → 0 < row.1.blockTime → row.1 = row'.1

/-! ## Ids in hex -/

/-- Every id can be asked for. -/
theorem decode_hexString {n : ℕ} {id : Bytes} (h : id.length = n) :
    decodeFixedHex n (hexString id) = some id := by
  have hlength : (hexString id).length = n * 2 := by
    rw [hexString, List.length_flatMap]
    simp [h]
  rw [decodeFixedHex, if_neg (not_not.mpr hlength), hexDecode_hexString]

/-! ## Lanes -/

theorem lane_iff (db : Database) (q : BatchedQuery) (result : Bytes × List GroupMessageResponse) :
    (∃ lane, prepareLane q = .ok lane ∧
      (do let messages ← readLane db lane
          return (lane.idHex, messages)) = Except.ok result) ↔
    result.1 = q.blindedGroupId ∧
      getGroupMessagesByBlindedGroupId db ⟨q.limit, none, q.cursor, q.blindedGroupId⟩ =
        .ok result.2 := by
  have hread : ∀ lane, (do let messages ← readLane db lane
                           return (lane.idHex, messages)) = Except.ok result ↔
      result.1 = lane.idHex ∧ readLane db lane = .ok result.2 := by
    intro lane
    cases readLane db lane with
    | ok messages => simp [bind, Except.bind, pure, Except.pure, Prod.ext_iff, eq_comm]
    | error e => simp [bind, Except.bind]
  simp only [hread]
  unfold prepareLane getGroupMessagesByBlindedGroupId
  dsimp only
  cases decodeFixedHex 32 q.blindedGroupId with
  | none => simp
  | some id =>
    dsimp only
    split
    · simp
    · constructor
      · rintro ⟨lane, hlane, hid, hmessages⟩
        obtain rfl := Except.ok.inj hlane
        exact ⟨hid, hmessages⟩
      · rintro ⟨hid, hmessages⟩
        exact ⟨_, rfl, hid, hmessages⟩

theorem lanes_agree (db : Database) : LanesAgree db := by
  intro queries hlength results
  unfold postGroupMessagesByBlindedGroupIds
  rw [if_neg (by omega)]
  simp only [← lane_iff]
  rw [← mapM_mapM_ok]
  constructor
  · intro h
    exact bind_ok h
  · rintro ⟨lanes, hlanes, hresults⟩
    rw [hlanes]
    exact hresults

/-! ## Pages -/

/-- The row as it is sent, where nothing goes wrong with it. -/
def messageOf (db : Database) (idHex : Bytes) (row : GroupRow) : GroupMessageResponse where
  txId := row.1.txId
  sender := (toRpcAddress row.2).toOption.getD none
  blindedGroupId := idHex
  blockTime := row.1.blockTime
  cursor := row.1
  accepting := (acceptingOf db row.1.txId).toOption.getD none
  messagePayload := hexString ((payloadOf db.rows.txIdToGroupMessage row.1.txId).toOption.getD [])

theorem buildMessageRow_eq {db : Database} (h : Stored db) {row : GroupRow}
    (hrow : row ∈ groupRows db) (idHex : Bytes) :
    buildMessageRow db row.1 row.2 idHex = .ok (messageOf db idHex row) := by
  have hreads := h.reads row hrow
  unfold buildMessageRow at hreads ⊢
  unfold messageOf
  cases hsender : toRpcAddress row.2 with
  | error e => simp [hsender, Except.bind, Except.isOk, Except.toBool] at hreads
  | ok sender =>
    cases haccepting : acceptingOf db row.1.txId with
    | error e => simp [hsender, haccepting, Except.bind, Except.isOk, Except.toBool] at hreads
    | ok accepting =>
      cases hpayload : payloadOf db.rows.txIdToGroupMessage row.1.txId with
      | error e =>
        simp [hsender, haccepting, hpayload, Except.bind, Except.map, Except.isOk,
          Except.toBool] at hreads
      | ok payload => rfl

/-- The rows of an id, in the order of their keys. -/
def rowsOf (db : Database) (id : Bytes) : List GroupRow := Partitions.groupMessages db.rows id

theorem mem_rowsOf {db : Database} {id : Bytes} {row : GroupRow} :
    row ∈ rowsOf db id ↔ row ∈ groupRows db ∧ row.1.blindedGroupId = id := by
  unfold rowsOf Partitions.groupMessages ordered
  rw [(List.perm_insertionSort _ _).mem_iff, List.mem_filter]
  simp [groupRows]

def orderOf (row : GroupRow) : List (List ℕ) :=
  keyOrder row.1.blockTime (Partitions.groupFields row.1)

theorem ordinals_injective : Function.Injective ordinals :=
  List.map_injective_iff.mpr fun _ _ h => UInt8.toNat_inj.mp h

theorem key_eq {row row' : GroupRow} (hid : row.1.blindedGroupId = row'.1.blindedGroupId)
    (h : orderOf row = orderOf row') : row.1 = row'.1 := by
  obtain ⟨⟨g, time, hash, version, txId⟩, sender⟩ := row
  obtain ⟨⟨g', time', hash', version', txId'⟩, sender'⟩ := row'
  simp only [orderOf, keyOrder, Partitions.groupFields, List.cons.injEq, and_true] at h
  obtain ⟨rfl, hhash, rfl, htx⟩ := h
  obtain rfl : g = g' := hid
  rw [ordinals_injective hhash, ordinals_injective htx]

theorem row_eq {db : Database} (h : Stored db) {row row' : GroupRow} (hrow : row ∈ groupRows db)
    (hrow' : row' ∈ groupRows db) (hkey : row.1 = row'.1) : row = row' :=
  List.inj_on_of_nodup_map h.nodup hrow hrow' hkey

/-- The keys of one id are strictly ordered. -/
theorem rowsOf_strict {db : Database} (h : Stored db) (id : Bytes) :
    (rowsOf db id).Pairwise (orderOf · < orderOf ·) := by
  have hle : (rowsOf db id).Pairwise (orderOf · ≤ orderOf ·) := List.pairwise_insertionSort _ _
  have hnodup : (rowsOf db id).Nodup :=
    (List.perm_insertionSort _ _).nodup_iff.mpr ((List.Nodup.of_map _ h.nodup).filter _)
  refine (hle.and hnodup).imp_of_mem fun {a b} ha hb ⟨hab, hne⟩ => lt_of_le_of_ne hab fun heq => ?_
  obtain ⟨ha, hida⟩ := mem_rowsOf.mp ha
  obtain ⟨hb, hidb⟩ := mem_rowsOf.mp hb
  exact hne (row_eq h ha hb (key_eq (hida.trans hidb.symm) heq))

/-- Where no two rows are of one message, a page is the first rows. -/
theorem page_eq_take {rows : List GroupRow} (h : (rows.map (·.1.txId)).Nodup) (limit : ℕ) :
    page (fun row : GroupRow => row.1.txId) limit rows = rows.take limit := by
  have hfirsts : ∀ (seen : List TxId) (rows : List GroupRow), (rows.map (·.1.txId)).Nodup →
      (∀ row ∈ rows, row.1.txId ∉ seen) → firsts (fun row : GroupRow => row.1.txId) seen rows = rows := by
    intro seen rows
    induction rows generalizing seen with
    | nil => exact fun _ _ => rfl
    | cons row rows ih =>
      intro hnodup hseen
      obtain ⟨hhead, htail⟩ := List.nodup_cons.mp hnodup
      rw [firsts, if_neg (hseen row (by simp)), ih _ htail fun r hr hin => ?_]
      rcases List.mem_cons.mp hin with heq | hin
      · exact hhead (List.mem_map.mpr ⟨r, hr, heq⟩)
      · exact hseen r (by simp [hr]) hin
  rw [page, hfirsts [] rows h fun _ _ => List.not_mem_nil]

/-! ## Following the cursor -/

section
variable {db : Database} {idHex id : Bytes} {cursor : Option GroupMessageKeyByBlindedGroupId}
  {limit : Option ℕ}

/-- The rows that come after a cursor. -/
def dueRows (db : Database) (id : Bytes) (cursor : Option GroupMessageKeyByBlindedGroupId) :
    List GroupRow :=
  (rowsOf db id).filter fun row => row.1.blockTime < lastTime ∧ afterCursor cursor row.1

def limitOf (limit : Option ℕ) : ℕ := min (limit.getD 10) 50

theorem limitOf_pos (h : limit ≠ some 0) : 0 < limitOf limit := by
  unfold limitOf
  cases limit with
  | none => simp
  | some n =>
    have hn : n ≠ 0 := fun hn => h (congrArg some hn)
    simp only [Option.getD_some]
    omega

theorem mem_dueRows {row : GroupRow} : row ∈ dueRows db id cursor ↔
    row ∈ rowsOf db id ∧ row.1.blockTime < lastTime ∧ afterCursor cursor row.1 = true := by
  simp [dueRows]

theorem dueRows_strict (h : Stored db) (id : Bytes)
    (cursor : Option GroupMessageKeyByBlindedGroupId) :
    (dueRows db id cursor).Pairwise (orderOf · < orderOf ·) :=
  (rowsOf_strict h id).filter _

/-- The cursor's own time begins the range, and all that comes after the cursor is in it. -/
theorem askAfter_eq (h : Stored db) (hid : decodeFixedHex 32 idHex = some id)
    (hcursor : ∀ c ∈ cursor, c.blindedGroupId = id) :
    askAfter db idHex limit cursor =
      (page (fun row : GroupRow => row.1.txId) (limitOf limit) (dueRows db id cursor)).map
        (messageOf db idHex) := by
  have hrange : (range (·.blockTime) (rowsOf db id) ((cursor.map (·.blockTime)).getD 0)).filter
      (fun row => afterCursor cursor row.1) = dueRows db id cursor := by
    unfold range dueRows
    rw [List.filter_filter]
    refine List.filter_congr fun row _ => ?_
    cases cursor with
    | none => simp [afterCursor]
    | some c =>
      have htime : keyOrder c.blockTime (Partitions.groupFields c) <
          keyOrder row.1.blockTime (Partitions.groupFields row.1) → c.blockTime ≤ row.1.blockTime :=
        fun hlt => time_le_of_keyOrder hlt.le
      simp only [afterCursor, Option.all_some, Option.map_some, Option.getD_some]
      by_cases hlt : keyOrder c.blockTime (Partitions.groupFields c) <
          keyOrder row.1.blockTime (Partitions.groupFields row.1)
      · simp [hlt, htime hlt]
      · simp [hlt]
  have hmatch : cursor.any (·.blindedGroupId ≠ id) = false := by
    cases cursor with
    | none => rfl
    | some c => simpa using hcursor c rfl
  unfold askAfter getGroupMessagesByBlindedGroupId
  simp only [hid, hmatch, Bool.false_eq_true, if_false, Option.getD_none]
  rw [show Partitions.groupMessages db.rows id = rowsOf db id from rfl, hrange]
  rw [mapM_of_ok (g := messageOf db idHex) fun row hrow => ?_]
  · rfl
  · have hdue := (firsts_sublist _ _).subset (List.mem_of_mem_take hrow)
    exact buildMessageRow_eq h (mem_rowsOf.mp (mem_dueRows.mp hdue).1).1 idHex

/-- After a row of the due ones only the later ones are due. -/
theorem dueRows_after (h : Stored db) {before after : List GroupRow} {row : GroupRow}
    (hdue : dueRows db id cursor = before ++ row :: after) :
    dueRows db id (some row.1) = after := by
  have hrow : row ∈ dueRows db id cursor := by simp [hdue]
  have hfilter : dueRows db id (some row.1) =
      (dueRows db id cursor).filter fun r => orderOf row < orderOf r := by
    unfold dueRows
    rw [List.filter_filter]
    refine List.filter_congr fun r _ => ?_
    have hafter : afterCursor (some row.1) r.1 = decide (orderOf row < orderOf r) := rfl
    rw [hafter]
    by_cases hlt : orderOf row < orderOf r
    · have hcursor : afterCursor cursor r.1 = true := by
        have hrow := (mem_dueRows.mp hrow).2.2
        cases cursor with
        | none => rfl
        | some c => exact decide_eq_true ((of_decide_eq_true hrow).trans hlt)
      simp [hlt, hcursor]
    · simp [hlt]
  have hstrict := dueRows_strict h id cursor
  rw [hdue] at hstrict
  obtain ⟨-, hcons, hapart⟩ := List.pairwise_append.mp hstrict
  rw [hfilter, hdue, List.filter_append, List.filter_cons, List.filter_eq_nil_iff.mpr,
    List.filter_eq_self.mpr]
  · simp
  · exact fun r hr => decide_eq_true ((List.pairwise_cons.mp hcons).1 r hr)
  · intro r hr
    simpa using (hapart r hr row (by simp)).le

theorem messageOf_txId (rows : List GroupRow) :
    (rows.map (messageOf db idHex)).map (·.txId) = rows.map (·.1.txId) := by
  simp [messageOf]

/-- A page that is not empty ends with a row, and the rest is due after that. -/
theorem take_split {rows : List GroupRow} {n : ℕ} (h : rows.take n ≠ []) :
    ∃ before row, rows.take n = before ++ [row] ∧ rows = before ++ row :: rows.drop n := by
  obtain ⟨before, row, hlast⟩ := (List.eq_nil_or_concat (rows.take n)).resolve_left h
  rw [List.concat_eq_append] at hlast
  refine ⟨before, row, hlast, ?_⟩
  conv_lhs => rw [← List.take_append_drop n rows, hlast]
  simp

theorem nextCursor_eq {page : List GroupRow} {before : List GroupRow} {row : GroupRow}
    (h : page = before ++ [row]) :
    nextCursor cursor (page.map (messageOf db idHex)) = some row.1 := by
  rw [h, nextCursor]
  simp [messageOf]

theorem dueRows_txIds (h : Stored db) (hsingle : Single db) (id : Bytes)
    (cursor : Option GroupMessageKeyByBlindedGroupId) :
    ((dueRows db id cursor).map (·.1.txId)).Nodup := by
  have hnodup : (dueRows db id cursor).Nodup := (dueRows_strict h id cursor).imp
    fun {a b} (hlt : orderOf a < orderOf b) (heq : a = b) => lt_irrefl (orderOf b) (heq ▸ hlt)
  refine List.Nodup.map_on (fun a ha b hb htx => ?_) hnodup
  obtain ⟨ha, hida⟩ := mem_rowsOf.mp (mem_dueRows.mp ha).1
  obtain ⟨hb, hidb⟩ := mem_rowsOf.mp (mem_dueRows.mp hb).1
  exact row_eq h ha hb (hsingle.one a ha b hb (hida.trans hidb.symm) htx)

/-- Messages of one row each come once when the cursor is followed. -/
theorem cursor_exact (h : Stored db) (hsingle : Single db) : CursorExact db := by
  intro idHex hdecodes limit hlimit
  obtain ⟨id, hid⟩ := Option.isSome_iff_exists.mp hdecodes
  have hpositive := limitOf_pos hlimit
  let valid (cursor : Option GroupMessageKeyByBlindedGroupId) : Prop :=
    ∀ c ∈ cursor, c.blindedGroupId = id
  have hask : ∀ cursor, valid cursor → askAfter db idHex limit cursor =
      ((dueRows db id cursor).take (limitOf limit)).map (messageOf db idHex) := by
    intro cursor hcursor
    rw [askAfter_eq h hid hcursor, page_eq_take (dueRows_txIds h hsingle id cursor)]
  have hsplit : ∀ cursor, valid cursor → askAfter db idHex limit cursor ≠ [] →
      ∃ before row after, dueRows db id cursor = before ++ row :: after ∧
        askAfter db idHex limit cursor = (before ++ [row]).map (messageOf db idHex) ∧
        nextCursor cursor (askAfter db idHex limit cursor) = some row.1 := by
    intro cursor hcursor hne
    rw [hask cursor hcursor] at hne ⊢
    obtain ⟨before, row, htake, hrows⟩ := take_split fun hnil => hne (by rw [hnil]; rfl)
    exact ⟨before, row, _, hrows, by rw [htake], nextCursor_eq htake⟩
  have hexact : Exactly (askAfter db idHex limit) nextCursor (·.txId)
      (fun txId => txId ∈ (dueRows db id none).map (·.1.txId)) none := by
    refine exactly_of_pages (fun cursor txId => txId ∈ (dueRows db id cursor).map (·.1.txId))
      (fun cursor => (dueRows db id cursor).length) valid ?_ ?_ ?_ ?_ ?_ ?_ (show valid none from nofun)
    · intro cursor hcursor hne
      obtain ⟨before, row, after, hrows, -, hnext⟩ := hsplit cursor hcursor hne
      rw [hnext]
      rintro _ ⟨⟩
      exact (mem_rowsOf.mp (mem_dueRows.mp (show row ∈ dueRows db id cursor by simp [hrows])).1).2
    · intro cursor hcursor
      rw [hask cursor hcursor, messageOf_txId]
      exact (dueRows_txIds h hsingle id cursor).sublist ((List.take_sublist _ _).map _)
    · intro cursor hcursor hempty txId hdue
      rw [hask cursor hcursor, List.map_eq_nil_iff, List.take_eq_nil_iff] at hempty
      rcases hempty with hzero | hnil
      · omega
      · simp [hnil] at hdue
    · intro cursor hcursor hne txId
      obtain ⟨before, row, after, hrows, hpage, hnext⟩ := hsplit cursor hcursor hne
      rw [hnext, dueRows_after h hrows, hpage, messageOf_txId, hrows]
      simp [or_assoc]
    · intro cursor hcursor hne txId hin
      obtain ⟨before, row, after, hrows, hpage, hnext⟩ := hsplit cursor hcursor hne
      rw [hpage, messageOf_txId] at hin
      rw [hnext, dueRows_after h hrows]
      have hnodup := dueRows_txIds h hsingle id cursor
      rw [hrows, show before ++ row :: after = (before ++ [row]) ++ after by simp,
        List.map_append] at hnodup
      exact fun hafter => (List.nodup_append.mp hnodup).2.2 _ hin _ hafter rfl
    · intro cursor hcursor hne
      obtain ⟨before, row, after, hrows, -, hnext⟩ := hsplit cursor hcursor hne
      rw [hnext, dueRows_after h hrows, hrows]
      simp
      omega
  refine hexact.congr fun txId => ?_
  rw [List.mem_map, hid]
  constructor
  · rintro ⟨row, hrow, htx⟩
    obtain ⟨hrow, hgroup⟩ := mem_rowsOf.mp (mem_dueRows.mp hrow).1
    exact ⟨row, hrow, congrArg some hgroup.symm, htx⟩
  · rintro ⟨row, hrow, hgroup, htx⟩
    exact ⟨row, mem_dueRows.mpr ⟨mem_rowsOf.mpr ⟨hrow, (Option.some.inj hgroup).symm⟩,
      hsingle.bounded row hrow, rfl⟩, htx⟩

/-- With pages of one row the cursor goes through every row. -/
theorem follow_one (h : Stored db) (hid : decodeFixedHex 32 idHex = some id) (fuel : ℕ)
    (hcursor : ∀ c ∈ cursor, c.blindedGroupId = id) {result : List GroupMessageResponse}
    (hresult : follow (askAfter db idHex (some 1)) nextCursor fuel cursor = some result) :
    result.map (·.txId) = (dueRows db id cursor).map (·.1.txId) := by
  induction fuel generalizing cursor result with
  | zero => cases hresult
  | succ fuel ih =>
    have hask : askAfter db idHex (some 1) cursor =
        (page (fun row : GroupRow => row.1.txId) (limitOf (some 1)) (dueRows db id cursor)).map
          (messageOf db idHex) := askAfter_eq h hid hcursor
    cases hdue : dueRows db id cursor with
    | nil =>
      rw [hdue] at hask
      rw [follow_empty hask] at hresult
      obtain rfl := Option.some.inj hresult
      rfl
    | cons row rows =>
      have hask : askAfter db idHex (some 1) cursor = [messageOf db idHex row] := by
        rw [hask, hdue]
        simp [page, firsts, limitOf]
      rw [follow_page (by simp [hask]), hask] at hresult
      obtain ⟨rest, hrest, rfl⟩ := Option.map_eq_some_iff.mp hresult
      have hrow := (mem_rowsOf.mp (mem_dueRows.mp (show row ∈ dueRows db id cursor by simp [hdue])).1).2
      have hrest : rest.map (·.txId) = (dueRows db id (some row.1)).map (·.1.txId) :=
        ih (by rintro _ ⟨⟩; exact hrow) hrest
      rw [dueRows_after h (show dueRows db id cursor = [] ++ row :: rows from hdue)] at hrest
      simp [hrest, messageOf]

end

/-! ## Polling from a block time -/

section
variable {db : Database} {ids : List Bytes} {limit : Option ℕ} {since : ℕ}

/-- The rows of one id that are newer, as a range reads them. -/
def newRows (db : Database) (since : ℕ) (idHex : Bytes) : List GroupRow :=
  (rowsOf db ((decodeFixedHex 32 idHex).getD [])).filter fun row =>
    since < row.1.blockTime ∧ row.1.blockTime < lastTime

def sinceLimit (limit : Option ℕ) : ℕ := min (limit.getD 200) 500

theorem sinceLimit_pos (h : limit ≠ some 0) : 0 < sinceLimit limit := by
  unfold sinceLimit
  cases limit with
  | none => simp
  | some n =>
    have hn : n ≠ 0 := fun hn => h (congrArg some hn)
    simp only [Option.getD_some]
    omega

theorem mem_newRows {idHex id : Bytes} (hid : decodeFixedHex 32 idHex = some id) {row : GroupRow} :
    row ∈ newRows db since idHex ↔ row ∈ groupRows db ∧ row.1.blindedGroupId = id ∧
      since < row.1.blockTime ∧ row.1.blockTime < lastTime := by
  simp [newRows, hid, mem_rowsOf, and_assoc]

/-- What one lane sends. -/
def laneOf (db : Database) (limit since : ℕ) (idHex : Bytes) : List GroupMessageResponse :=
  (page (fun row : GroupRow => row.1.txId) limit (newRows db since idHex)).map (messageOf db idHex)

theorem rowsSince_eq (h : Stored db) {idHex id : Bytes} (hid : decodeFixedHex 32 idHex = some id)
    (limit since : ℕ) : rowsSince db limit since id idHex = .ok (laneOf db limit since idHex) := by
  have hrange : (range (·.blockTime) (rowsOf db id) since).filter (newer since) =
      newRows db since idHex := by
    unfold range newRows newer
    rw [List.filter_filter, hid]
    refine List.filter_congr fun row _ => ?_
    by_cases hlt : since < row.1.blockTime
    · simp [hlt, hlt.le]
    · simp [hlt]
  unfold rowsSince
  rw [show Partitions.groupMessages db.rows id = rowsOf db id from rfl, hrange]
  refine mapM_of_ok fun row hrow => ?_
  have hnew := (firsts_sublist _ _).subset (List.mem_of_mem_take hrow)
  exact buildMessageRow_eq h ((mem_newRows hid).mp hnew).1 idHex

theorem decoded (hids : ∀ idHex ∈ ids, (decodeFixedHex 32 idHex).isSome) :
    (ids.mapM fun idHex => (decodeFixedHex 32 idHex).map fun id => (id, idHex)) =
      some (ids.map fun idHex => ((decodeFixedHex 32 idHex).getD [], idHex)) := by
  induction ids with
  | nil => rfl
  | cons idHex ids ih =>
    obtain ⟨id, hid⟩ := Option.isSome_iff_exists.mp (hids idHex (by simp))
    rw [List.mapM_cons, ih fun h hh => hids h (List.mem_cons_of_mem _ hh), hid]
    simp [hid]

theorem post_eq (h : Stored db) (hids : Requested ids) (limit : Option ℕ) (since : ℕ) :
    postGroupMessagesSince db ids since limit = .ok (mergeMessages (sinceLimit limit) since
      (ids.map (laneOf db (sinceLimit limit) since)).flatten) := by
  unfold postGroupMessagesSince
  rw [if_neg (by have := hids.1; omega)]
  dsimp only
  rw [decoded hids.2.1]
  dsimp only
  rw [mapM_of_ok (g := fun p => laneOf db (sinceLimit limit) since p.2) fun p hp => ?_]
  · rw [List.map_map]
    rfl
  · obtain ⟨idHex, hmem, rfl⟩ := List.mem_map.mp hp
    obtain ⟨id, hid⟩ := Option.isSome_iff_exists.mp (hids.2.1 idHex hmem)
    dsimp only
    rw [hid]
    exact rowsSince_eq h hid _ _

theorem askSince_eq (h : Stored db) (hids : Requested ids) (limit : Option ℕ) (since : ℕ) :
    askSince db ids limit since = (mergeMessages (sinceLimit limit) since
      (ids.map (laneOf db (sinceLimit limit) since)).flatten).1 := by
  rw [askSince, post_eq h hids]
  rfl

theorem nextSince_eq (h : Stored db) (hids : Requested ids) (limit : Option ℕ) (since : ℕ)
    (page : List GroupMessageResponse) : nextSince db ids limit since page =
      (((askSince db ids limit since).map (·.blockTime)).max?).getD since := by
  rw [nextSince, askSince_eq h hids, post_eq h hids]
  rfl

/-- What is sent is a newer row of one of the ids. -/
theorem mem_askSince (h : Stored db) (hids : Requested ids) {r : GroupMessageResponse}
    (hr : r ∈ askSince db ids limit since) :
    ∃ idHex ∈ ids, ∃ row ∈ groupRows db, decodeFixedHex 32 idHex = some row.1.blindedGroupId ∧
      r = messageOf db idHex row ∧ since < row.1.blockTime ∧ row.1.blockTime < lastTime := by
  rw [askSince_eq h hids] at hr
  have hall := (List.perm_insertionSort _ _).mem_iff.mp (List.mem_of_mem_take hr)
  obtain ⟨lane, hlane, hr⟩ := List.mem_flatten.mp hall
  obtain ⟨idHex, hmem, rfl⟩ := List.mem_map.mp hlane
  obtain ⟨row, hrow, rfl⟩ := List.mem_map.mp hr
  obtain ⟨id, hid⟩ := Option.isSome_iff_exists.mp (hids.2.1 idHex hmem)
  have hnew := (firsts_sublist _ _).subset (List.mem_of_mem_take hrow)
  obtain ⟨hrow, hgroup, hsince, hlast⟩ := (mem_newRows hid).mp hnew
  exact ⟨idHex, hmem, row, hrow, hgroup ▸ hid, rfl, hsince, hlast⟩

/-- The next time is that of the newest row of the page. -/
theorem nextSince_newest (h : Stored db) (hids : Requested ids)
    (hne : askSince db ids limit since ≠ []) (page : List GroupMessageResponse) :
    (∃ r ∈ askSince db ids limit since, nextSince db ids limit since page = r.blockTime) ∧
      ∀ r ∈ askSince db ids limit since, r.blockTime ≤ nextSince db ids limit since page := by
  rw [nextSince_eq h hids]
  cases hmax : ((askSince db ids limit since).map (·.blockTime)).max? with
  | none => exact absurd (List.map_eq_nil_iff.mp (List.max?_eq_none_iff.mp hmax)) hne
  | some newest =>
    obtain ⟨hmem, hle⟩ := List.max?_eq_some_iff.mp hmax
    obtain ⟨r, hr, rfl⟩ := List.mem_map.mp hmem
    exact ⟨⟨r, hr, rfl⟩, fun q hq => hle _ (List.mem_map_of_mem hq)⟩

theorem since_lt_next (h : Stored db) (hids : Requested ids)
    (hne : askSince db ids limit since ≠ []) (page : List GroupMessageResponse) :
    since < nextSince db ids limit since page := by
  obtain ⟨⟨r, hr, hnext⟩, -⟩ := nextSince_newest h hids hne page
  obtain ⟨idHex, -, row, -, -, rfl, hlt, -⟩ := mem_askSince h hids hr
  exact hnext ▸ hlt

/-- Every later page is of rows that are newer than where the run started. -/
theorem follow_newer (h : Stored db) (hids : Requested ids) {start : ℕ} {fuel : ℕ}
    {result : List GroupMessageResponse}
    (hresult : follow (askSince db ids limit) (nextSince db ids limit) fuel start = some result) :
    ∀ r ∈ result, ∃ idHex ∈ ids, ∃ row ∈ groupRows db,
      decodeFixedHex 32 idHex = some row.1.blindedGroupId ∧ r = messageOf db idHex row ∧
        start < row.1.blockTime ∧ row.1.blockTime < lastTime := by
  refine follow_forall (start ≤ ·) (fun s hs hne => ?_) (fun s hs r hr => ?_) le_rfl hresult
  · exact hs.trans (since_lt_next h hids hne _).le
  · obtain ⟨idHex, hmem, row, hrow, hid, hr, hlt, hlast⟩ := mem_askSince h hids hr
    exact ⟨idHex, hmem, row, hrow, hid, hr, lt_of_le_of_lt hs hlt, hlast⟩

/-! Where each message has one row and one time, the pages are merged lanes. -/

/-- The order of the one stream. -/
def ByTime (a b : GroupMessageResponse) : Prop :=
  keyOrder a.blockTime [ordinals a.txId] ≤ keyOrder b.blockTime [ordinals b.txId]

instance : DecidableRel ByTime := fun a b =>
  inferInstanceAs (Decidable (keyOrder a.blockTime [ordinals a.txId] ≤
    keyOrder b.blockTime [ordinals b.txId]))

instance : Std.Total ByTime := ⟨fun _ _ => le_total _ _⟩

instance : IsTrans GroupMessageResponse ByTime := ⟨fun _ _ _ => le_trans⟩

/-- All newer rows of the ids, as they are sent. -/
def newLanes (db : Database) (ids : List Bytes) (since : ℕ) : List (List GroupMessageResponse) :=
  ids.map fun idHex => (newRows db since idHex).map (messageOf db idHex)

theorem mem_newLanes (hids : Requested ids) {r : GroupMessageResponse} :
    r ∈ (newLanes db ids since).flatten ↔ ∃ idHex ∈ ids, ∃ row ∈ groupRows db,
      decodeFixedHex 32 idHex = some row.1.blindedGroupId ∧ r = messageOf db idHex row ∧
        since < row.1.blockTime ∧ row.1.blockTime < lastTime := by
  rw [newLanes, List.mem_flatten]
  constructor
  · rintro ⟨lane, hlane, hr⟩
    obtain ⟨idHex, hmem, rfl⟩ := List.mem_map.mp hlane
    obtain ⟨row, hrow, rfl⟩ := List.mem_map.mp hr
    obtain ⟨id, hid⟩ := Option.isSome_iff_exists.mp (hids.2.1 idHex hmem)
    obtain ⟨hrow, hgroup, hsince, hlast⟩ := (mem_newRows hid).mp hrow
    exact ⟨idHex, hmem, row, hrow, hgroup ▸ hid, rfl, hsince, hlast⟩
  · rintro ⟨idHex, hmem, row, hrow, hid, rfl, hsince, hlast⟩
    exact ⟨_, List.mem_map_of_mem hmem, List.mem_map_of_mem
      ((mem_newRows hid).mpr ⟨hrow, rfl, hsince, hlast⟩)⟩

theorem newRows_strict (h : Stored db) (since : ℕ) (idHex : Bytes) :
    (newRows db since idHex).Pairwise (orderOf · < orderOf ·) :=
  (rowsOf_strict h _).filter _

theorem newRows_txIds (h : Stored db) (hsingle : Single db) (hids : Requested ids) (since : ℕ)
    {idHex : Bytes} (hmem : idHex ∈ ids) : ((newRows db since idHex).map (·.1.txId)).Nodup := by
  obtain ⟨id, hid⟩ := Option.isSome_iff_exists.mp (hids.2.1 idHex hmem)
  have hnodup : (newRows db since idHex).Nodup := (newRows_strict h since idHex).imp
    fun {a b} (hlt : orderOf a < orderOf b) (heq : a = b) => lt_irrefl (orderOf b) (heq ▸ hlt)
  refine List.Nodup.map_on (fun a ha b hb htx => ?_) hnodup
  obtain ⟨ha, hida, -⟩ := (mem_newRows hid).mp ha
  obtain ⟨hb, hidb, -⟩ := (mem_newRows hid).mp hb
  exact row_eq h ha hb (hsingle.one a ha b hb (hida.trans hidb.symm) htx)

theorem askSince_merged (h : Stored db) (hsingle : Single db) (hids : Requested ids)
    (limit : Option ℕ) (since : ℕ) :
    askSince db ids limit since = merged ByTime (sinceLimit limit) (newLanes db ids since) := by
  have hlanes : ids.map (laneOf db (sinceLimit limit) since) =
      (newLanes db ids since).map (·.take (sinceLimit limit)) := by
    rw [newLanes, List.map_map]
    refine List.map_congr_left fun idHex hmem => ?_
    rw [laneOf, page_eq_take (newRows_txIds h hsingle hids since hmem), List.map_take]
    rfl
  rw [askSince_eq h hids, hlanes]
  rfl

/-- The rows of the lanes are told apart by their times. -/
theorem newLanes_apart (h : Stored db) (hsingle : Single db) (hids : Requested ids)
    {a b : GroupMessageResponse} (ha : a ∈ (newLanes db ids since).flatten)
    (hb : b ∈ (newLanes db ids since).flatten) (htime : a.blockTime = b.blockTime) : a = b := by
  obtain ⟨idHex, hmem, row, hrow, hid, rfl, hsince, -⟩ := (mem_newLanes hids).mp ha
  obtain ⟨idHex', hmem', row', hrow', hid', rfl, -, -⟩ := (mem_newLanes hids).mp hb
  obtain rfl := row_eq h hrow hrow' (hsingle.apart row hrow row' hrow' htime (by omega))
  rw [List.inj_on_of_nodup_map hids.2.2 hmem hmem' (hid.trans hid'.symm)]

theorem newLanes_sorted (h : Stored db) (hsingle : Single db) (hids : Requested ids)
    {lane : List GroupMessageResponse} (hlane : lane ∈ newLanes db ids since) :
    lane.Pairwise (·.blockTime < ·.blockTime) := by
  obtain ⟨idHex, hmem, rfl⟩ := List.mem_map.mp hlane
  obtain ⟨id, hid⟩ := Option.isSome_iff_exists.mp (hids.2.1 idHex hmem)
  refine List.pairwise_map.mpr ((newRows_strict h since idHex).imp_of_mem fun {a b} ha hb hlt => ?_)
  obtain ⟨ha, -, hsince, -⟩ := (mem_newRows hid).mp ha
  obtain ⟨hb, -⟩ := (mem_newRows hid).mp hb
  have hle : a.1.blockTime ≤ b.1.blockTime := time_le_of_keyOrder hlt.le
  refine lt_of_le_of_ne hle fun heq => ?_
  obtain rfl := row_eq h ha hb (hsingle.apart a ha b hb heq (by omega))
  exact lt_irrefl _ hlt

theorem newLanes_messages (h : Stored db) (hsingle : Single db) (hids : Requested ids) (since : ℕ) :
    ((newLanes db ids since).flatten.map messageIn).Nodup := by
  have hnodup : (newLanes db ids since).flatten.Nodup := by
    refine List.nodup_flatten.mpr ⟨fun lane hlane => ?_, ?_⟩
    · exact (newLanes_sorted h hsingle hids hlane).imp fun {a b} hlt heq => by
        rw [heq] at hlt
        exact lt_irrefl _ hlt
    · have hdistinct : ids.Nodup := List.Nodup.of_map _ hids.2.2
      refine List.pairwise_map.mpr (hdistinct.imp fun {idHex idHex'} hne r hr hr' => ?_)
      obtain ⟨row, -, rfl⟩ := List.mem_map.mp hr
      obtain ⟨row', -, hrow'⟩ := List.mem_map.mp hr'
      exact hne (congrArg GroupMessageResponse.blindedGroupId hrow').symm
  refine List.Nodup.map_on (fun a ha b hb heq => ?_) hnodup
  obtain ⟨idHex, hmem, row, hrow, hid, rfl, hsince, -⟩ := (mem_newLanes hids).mp ha
  obtain ⟨idHex', hmem', row', hrow', hid', rfl, -, -⟩ := (mem_newLanes hids).mp hb
  obtain ⟨rfl, htx⟩ := Prod.ext_iff.mp heq
  obtain rfl := row_eq h hrow hrow'
    (hsingle.one row hrow row' hrow' (Option.some.inj (hid.symm.trans hid')) htx)
  rfl

/-- What is due is what the lanes hold. -/
theorem due_iff (hsingle : Single db) (hids : Requested ids) (since : ℕ) (m : Message) :
    m.1 ∈ ids ∧ Newer db since m ↔ m ∈ (newLanes db ids since).flatten.map messageIn := by
  rw [List.mem_map]
  constructor
  · rintro ⟨hmem, row, hrow, hid, htx, hlt⟩
    refine ⟨messageOf db m.1 row, (mem_newLanes hids).mpr ⟨m.1, hmem, row, hrow, hid, rfl, hlt,
      hsingle.bounded row hrow⟩, ?_⟩
    rw [messageIn, messageOf, htx]
  · rintro ⟨r, hr, rfl⟩
    obtain ⟨idHex, hmem, row, hrow, hid, rfl, hlt, -⟩ := (mem_newLanes hids).mp hr
    exact ⟨hmem, row, hrow, hid, rfl, hlt⟩

theorem since_exact (h : Stored db) (hsingle : Single db) : SinceExact db := by
  intro ids hids limit hlimit start
  have hask := askSince_merged h hsingle hids limit
  have hnext := fun s (hne : askSince db ids limit s ≠ []) =>
    nextSince_newest h hids hne (askSince db ids limit s)
  refine exactly_of_pages (fun s m => m.1 ∈ ids ∧ Newer db s m)
    (fun s => ((groupRows db).filter fun row => s < row.1.blockTime).length) (fun _ => True)
    (fun _ _ _ => trivial) ?_ ?_ ?_ ?_ ?_ trivial
  · intro s _
    rw [hask]
    exact merged_nodup (newLanes_messages h hsingle hids s)
  · intro s _ hempty m
    rw [due_iff hsingle hids]
    intro hm
    obtain ⟨r, hr, -⟩ := List.mem_map.mp hm
    rw [hask] at hempty
    exact merged_ne_nil (sinceLimit_pos hlimit) (List.ne_nil_of_mem hr) hempty
  · intro s _ hne m
    obtain ⟨⟨p, hp, hnewest⟩, -⟩ := hnext s hne
    constructor
    · intro hdue
      obtain ⟨x, hx, rfl⟩ := List.mem_map.mp ((due_iff hsingle hids s m).mp hdue)
      by_cases hkept : x ∈ askSince db ids limit s
      · exact .inl (List.mem_map_of_mem hkept)
      · rw [hask] at hp hkept
        have hlate : p.blockTime < x.blockTime := merged_cut (fun a b (hab : ByTime a b) => time_le_of_keyOrder hab)
          (fun lane hlane => newLanes_sorted h hsingle hids hlane)
          (fun a ha b hb => newLanes_apart h hsingle hids ha hb) hx hkept hp
        obtain ⟨idHex, hmem, row, hrow, hid, rfl, -⟩ := (mem_newLanes hids).mp hx
        exact .inr ⟨hmem, row, hrow, hid, rfl, hnewest ▸ hlate⟩
    · rintro (hm | ⟨hmem, row, hrow, hid, htx, hlt⟩)
      · obtain ⟨r, hr, rfl⟩ := List.mem_map.mp hm
        obtain ⟨idHex, hmem, row, hrow, hid, rfl, hlt, -⟩ := mem_askSince h hids hr
        exact ⟨hmem, row, hrow, hid, rfl, hlt⟩
      · exact ⟨hmem, row, hrow, hid, htx, (since_lt_next h hids hne _).trans hlt⟩
  · rintro s - hne m hm ⟨-, row', hrow', hid', htx', hlt⟩
    obtain ⟨r, hr, rfl⟩ := List.mem_map.mp hm
    have hle := (hnext s hne).2 r hr
    obtain ⟨idHex, -, row, hrow, hid, rfl, -⟩ := mem_askSince h hids hr
    have heq := hsingle.one row hrow row' hrow' (Option.some.inj (hid.symm.trans hid')) htx'.symm
    simp only [messageOf, heq] at hle
    omega
  · intro s _ hne
    obtain ⟨⟨p, hp, hnewest⟩, -⟩ := hnext s hne
    obtain ⟨idHex, -, row, hrow, -, rfl, hlt, -⟩ := mem_askSince h hids hp
    have hrows : (groupRows db).filter (fun row => nextSince db ids limit s
        (askSince db ids limit s) < row.1.blockTime) =
        ((groupRows db).filter fun row => s < row.1.blockTime).filter fun row =>
          nextSince db ids limit s (askSince db ids limit s) < row.1.blockTime := by
      rw [List.filter_filter]
      refine List.filter_congr fun r _ => ?_
      have hlater := since_lt_next h hids hne (askSince db ids limit s)
      by_cases hr : nextSince db ids limit s (askSince db ids limit s) < r.1.blockTime
      · simp [hr, hlater.trans hr]
      · simp [hr]
    rw [hrows]
    refine List.length_filter_lt_length_iff_exists.mpr ⟨row, List.mem_filter.mpr ⟨hrow, ?_⟩, ?_⟩
    · simpa using hlt
    · simp [hnewest, messageOf]

/-! ## What exact polling needs -/

theorem bounded_of_since (h : Stored db) (hsince : SinceExact db) :
    ∀ row ∈ groupRows db, row.1.blockTime < lastTime := by
  intro row hrow
  have hid := decode_hexString (h.sized row hrow)
  have hids : Requested [hexString row.1.blindedGroupId] := by
    refine ⟨by simp, fun idHex hmem => ?_, List.nodup_singleton _⟩
    rw [List.mem_singleton.mp hmem, hid]
    rfl
  by_contra hlate
  obtain ⟨enough, hruns⟩ := hsince _ hids none (by simp) (lastTime - 1)
  obtain ⟨result, hresult, -, hmem⟩ := hruns enough le_rfl
  have hdue := (hmem (hexString row.1.blindedGroupId, row.1.txId)).mpr
    ⟨by simp, row, hrow, hid, rfl, by unfold lastTime at hlate ⊢; omega⟩
  obtain ⟨r, hr, -⟩ := List.mem_map.mp hdue
  obtain ⟨idHex, -, row', -, -, -, hlt, hlast⟩ := follow_newer h hids hresult r hr
  omega

theorem one_of_cursor (h : Stored db) (hcursor : CursorExact db)
    (hbounded : ∀ row ∈ groupRows db, row.1.blockTime < lastTime) :
    ∀ row ∈ groupRows db, ∀ row' ∈ groupRows db,
      row.1.blindedGroupId = row'.1.blindedGroupId → row.1.txId = row'.1.txId →
        row.1 = row'.1 := by
  intro row hrow row' hrow' hgroup htx
  have hid := decode_hexString (h.sized row hrow)
  obtain ⟨enough, hruns⟩ := hcursor (hexString row.1.blindedGroupId) (by rw [hid]; rfl) (some 1)
    (by simp)
  obtain ⟨result, hresult, hnodup, -⟩ := hruns enough le_rfl
  rw [follow_one h hid enough (by simp) hresult] at hnodup
  have hdue : ∀ r ∈ groupRows db, r.1.blindedGroupId = row.1.blindedGroupId →
      r ∈ dueRows db row.1.blindedGroupId none := fun r hr hgroup =>
    mem_dueRows.mpr ⟨mem_rowsOf.mpr ⟨hr, hgroup⟩, hbounded r hr, rfl⟩
  rw [List.inj_on_of_nodup_map hnodup (hdue row hrow rfl) (hdue row' hrow' hgroup.symm) htx]

/-- Two ids, or one twice, in one request. -/
theorem requested_pair {id id' : Bytes} (h : id.length = 32) (h' : id'.length = 32) :
    ∃ ids, Requested ids ∧ hexString id ∈ ids ∧ hexString id' ∈ ids := by
  have hdecodes : ∀ idHex ∈ [hexString id, hexString id'], (decodeFixedHex 32 idHex).isSome := by
    simp [decode_hexString h, decode_hexString h']
  by_cases heq : id = id'
  · obtain rfl := heq
    exact ⟨[hexString id], ⟨by simp, by simp [decode_hexString h], List.nodup_singleton _⟩,
      by simp, by simp⟩
  · refine ⟨[hexString id, hexString id'], ⟨by simp, hdecodes, ?_⟩, by simp, by simp⟩
    simp [decode_hexString h, decode_hexString h', heq]

/-- With pages of one message, the second of two that share a time is behind the first page. -/
theorem apart_of_since (h : Stored db) (hsince : SinceExact db)
    (hone : ∀ row ∈ groupRows db, ∀ row' ∈ groupRows db,
      row.1.blindedGroupId = row'.1.blindedGroupId → row.1.txId = row'.1.txId → row.1 = row'.1) :
    ∀ row ∈ groupRows db, ∀ row' ∈ groupRows db,
      row.1.blockTime = row'.1.blockTime → 0 < row.1.blockTime → row.1 = row'.1 := by
  intro row hrow row' hrow' htime hpositive
  by_contra hne
  obtain ⟨ids, hids, hmem, hmem'⟩ := requested_pair (h.sized row hrow) (h.sized row' hrow')
  let textOf (row : GroupRow) : Message := (hexString row.1.blindedGroupId, row.1.txId)
  have hdue : ∀ r ∈ groupRows db, hexString r.1.blindedGroupId ∈ ids →
      r.1.blockTime = row.1.blockTime →
      (textOf r).1 ∈ ids ∧ Newer db (row.1.blockTime - 1) (textOf r) := fun r hr hmem htime =>
    ⟨hmem, r, hr, decode_hexString (h.sized r hr), rfl, by omega⟩
  have hdistinct : textOf row ≠ textOf row' := by
    intro heq
    obtain ⟨hid, htx⟩ := Prod.ext_iff.mp heq
    have hgroup : some row.1.blindedGroupId = some row'.1.blindedGroupId := by
      rw [← decode_hexString (h.sized row hrow), ← decode_hexString (h.sized row' hrow')]
      exact congrArg _ hid
    exact hne (hone row hrow row' hrow' (Option.some.inj hgroup) htx)
  have hexact := hsince ids hids (some 1) (by simp) (row.1.blockTime - 1)
  have hask : askSince db ids (some 1) (row.1.blockTime - 1) ≠ [] := by
    intro hempty
    obtain ⟨enough, hruns⟩ := hexact
    obtain ⟨result, hresult, -, hall⟩ := hruns (enough + 1) (by omega)
    rw [follow_empty hempty] at hresult
    obtain rfl := Option.some.inj hresult
    exact List.not_mem_nil ((hall (textOf row)).mpr (hdue row hrow hmem rfl))
  have hnext : row.1.blockTime ≤ nextSince db ids (some 1) (row.1.blockTime - 1)
      (askSince db ids (some 1) (row.1.blockTime - 1)) := by
    have hlt := since_lt_next h hids hask (askSince db ids (some 1) (row.1.blockTime - 1))
    omega
  obtain ⟨fuel, rest, hrest, -, hcovers⟩ := hexact.later hask
  -- what comes after the first page is later than both rows
  have hgone : ∀ r ∈ groupRows db, r.1.blockTime = row.1.blockTime →
      textOf r ∉ rest.map messageIn := by
    intro r hr hrtime hin
    obtain ⟨response, hresponse, heq⟩ := List.mem_map.mp hin
    obtain ⟨idHex, -, late, hlate, hid, rfl, hlt, -⟩ := follow_newer h hids hrest response hresponse
    obtain ⟨hidHex, htx⟩ := Prod.ext_iff.mp heq
    obtain rfl : idHex = hexString r.1.blindedGroupId := hidHex
    rw [decode_hexString (h.sized r hr)] at hid
    have hkey := hone r hr late hlate (Option.some.inj hid) htx.symm
    rw [← hkey] at hlt
    omega
  have hpage : ∀ r ∈ groupRows db, hexString r.1.blindedGroupId ∈ ids →
      r.1.blockTime = row.1.blockTime →
      textOf r ∈ (askSince db ids (some 1) (row.1.blockTime - 1)).map messageIn :=
    fun r hr hmem hrtime => ((hcovers _).mpr (hdue r hr hmem hrtime)).resolve_right
      (hgone r hr hrtime)
  have hlength : ((askSince db ids (some 1) (row.1.blockTime - 1)).map messageIn).length ≤ 1 := by
    rw [askSince_eq h hids, List.length_map]
    exact List.length_take_le _ _
  obtain ⟨only, honly⟩ := List.length_eq_one_iff.mp (le_antisymm hlength
    (List.length_pos_of_mem (hpage row hrow hmem rfl)))
  have hfirst := hpage row hrow hmem rfl
  have hsecond := hpage row' hrow' hmem' htime.symm
  rw [honly, List.mem_singleton] at hfirst hsecond
  exact hdistinct (hfirst.trans hsecond.symm)

theorem group_polling_iff (h : Stored db) :
    SinceExact db ∧ CursorExact db ∧ LanesAgree db ↔ Single db := by
  constructor
  · rintro ⟨hsince, hcursor, -⟩
    have hbounded := bounded_of_since h hsince
    have hone := one_of_cursor h hcursor hbounded
    exact ⟨hbounded, hone, apart_of_since h hsince hone⟩
  · exact fun hsingle => ⟨since_exact h hsingle, cursor_exact h hsingle, lanes_agree db⟩

end

/-! ### Two messages -/

def sampleId : Bytes := List.replicate 32 9

/-- Messages of one id, each with the number of its transaction and its block time. -/
def sampleStore (messages : List (UInt8 × ℕ)) : Database :=
  { Database.empty with
    rows := { Rows.empty with
      groupMessageByBlindedGroupId := messages.map fun (n, time) =>
        (⟨sampleId, time, List.replicate 32 1, 0, List.replicate 32 n⟩, default)
      txIdToGroupMessage := messages.map fun (n, _) => (List.replicate 32 n, [0]) } }

theorem sampleStore_stored : Stored (sampleStore [(1, 5), (2, 5)]) ∧
    Stored (sampleStore [(1, 5), (2, 6)]) :=
  ⟨⟨by decide +kernel, by decide +kernel, by decide +kernel⟩,
    ⟨by decide +kernel, by decide +kernel, by decide +kernel⟩⟩

/-- Two messages of one block, and pages of one: the second is never sent. -/
theorem second_message_lost : ¬ SinceExact (sampleStore [(1, 5), (2, 5)]) := by
  intro hsince
  let db := sampleStore [(1, 5), (2, 5)]
  have hstops : (follow (askSince db [hexString sampleId] (some 1))
      (nextSince db [hexString sampleId] (some 1)) 2 0).map (·.map messageIn) =
        some [(hexString sampleId, List.replicate 32 1)] := by decide +kernel
  have hids : Requested [hexString sampleId] := by
    unfold Requested
    decide +kernel
  obtain ⟨enough, hruns⟩ := hsince _ hids (some 1) (by simp) 0
  obtain ⟨result, hresult, -, hcovers⟩ := hruns (2 + enough) (by omega)
  obtain ⟨page, hpage, hone⟩ := Option.map_eq_some_iff.mp hstops
  obtain rfl := Option.some.inj ((follow_mono hpage enough).symm.trans hresult)
  have hsecond := (hcovers (hexString sampleId, List.replicate 32 2)).mpr ⟨by simp,
    (⟨sampleId, 5, List.replicate 32 1, 0, List.replicate 32 2⟩, default), by decide +kernel,
    by decide +kernel, rfl, by decide⟩
  rw [hone] at hsecond
  exact absurd hsecond (by decide +kernel)

theorem two_messages_polled : SinceExact (sampleStore [(1, 5), (2, 6)]) ∧
    CursorExact (sampleStore [(1, 5), (2, 6)]) ∧ LanesAgree (sampleStore [(1, 5), (2, 6)]) :=
  (group_polling_iff sampleStore_stored.2).mpr
    ⟨by decide +kernel, by decide +kernel, by decide +kernel⟩

end KaChatIndexer.ChatPolling

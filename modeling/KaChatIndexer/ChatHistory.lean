import KaChatIndexer.ChatReads

/-!
# Paging through the history of a chat

A client of one of the six history endpoints repeats its query from the block time it received last
on. A page with nothing new stops it, and such a page comes once enough transactions share a block
time.
-/
namespace KaChatIndexer.ChatHistory
open ByteStrings ChatPayload ChatRows ChatBlocks ChatReads CursorPaging Fallible

inductive HistoryQuery where
  | handshakesBySender (address : Address)
  | handshakesByReceiver (address : Address)
  | paymentsBySender (address : Address)
  | paymentsByReceiver (address : Address)
  | contextualBySender (address : Address) (aliasHex : Bytes)
  | contextualByInbox (tagHex : Bytes)

/-- A transaction and a block time of it. -/
abbrev Item := TxId × ℕ

namespace HistoryQuery

def itemsOf {κ ν : Type} (txId : κ → TxId) (time : κ → ℕ) (p : Partition κ ν) : List Item :=
  p.map fun row => (txId row.1, time row.1)

/-- The rows stored for the query, in the order of their keys. -/
def stored (rows : Rows) : HistoryQuery → List Item
  | .handshakesBySender a =>
    itemsOf (·.txId) (·.blockTime) (Partitions.handshakesBySender rows a.toPayload)
  | .handshakesByReceiver a =>
    itemsOf (·.txId) (·.blockTime) (Partitions.handshakesByReceiver rows a.toPayload)
  | .paymentsBySender a =>
    itemsOf (·.txId) (·.blockTime) (Partitions.paymentsBySender rows a.toPayload)
  | .paymentsByReceiver a =>
    itemsOf (·.txId) (·.blockTime) (Partitions.paymentsByReceiver rows a.toPayload)
  | .contextualBySender a aliasHex =>
    ((decodeFixedHex (aliasHex.length / 2) aliasHex).map fun name =>
      itemsOf (·.txId) (·.blockTime)
        (Partitions.contextualBySender rows a.toPayload (padded 16 name))).getD []
  | .contextualByInbox tagHex =>
    ((decodeFixedHex 16 tagHex).map fun tag =>
      itemsOf (·.txId) (·.blockTime) (Partitions.contextualByInbox rows tag)).getD []

/-- What the endpoint lists. -/
def answer (db : Database) (params : PaginationParams) :
    HistoryQuery → Except ReadFault (List Item)
  | .handshakesBySender a =>
    (getHandshakesBySender db a params).map fun l => l.map fun m => (m.txId, m.blockTime)
  | .handshakesByReceiver a =>
    (getHandshakesByReceiver db a params).map fun l => l.map fun m => (m.txId, m.blockTime)
  | .paymentsBySender a =>
    (getPaymentsBySender db a params).map fun l => l.map fun m => (m.txId, m.blockTime)
  | .paymentsByReceiver a =>
    (getPaymentsByReceiver db a params).map fun l => l.map fun m => (m.txId, m.blockTime)
  | .contextualBySender a aliasHex =>
    (getContextualMessagesBySender db a aliasHex params).map fun l =>
      l.map fun m => (m.txId, m.blockTime)
  | .contextualByInbox tagHex =>
    (getContextualMessagesByInbox db tagHex params).map fun l =>
      l.map fun m => (m.txId, m.blockTime)

/-- The limit that the endpoint keeps to. -/
def limitOf (limit : Option ℕ) : HistoryQuery → ℕ
  | .contextualByInbox _ => min (limit.getD 100) 500
  | _ => min (limit.getD 10) 50

/-- The query is well formed and each of its rows can be sent. -/
def Readable (db : Database) : HistoryQuery → Prop
  | .handshakesBySender a => ∀ row ∈ Partitions.handshakesBySender db.rows a.toPayload,
      (handshakeResponse db row.1.txId row.1.sender row.1.receiver row.1.blockTime).isOk
  | .handshakesByReceiver a => ∀ row ∈ Partitions.handshakesByReceiver db.rows a.toPayload,
      (handshakeResponse db row.1.txId row.2 row.1.receiver row.1.blockTime).isOk
  | .paymentsBySender a => ∀ row ∈ Partitions.paymentsBySender db.rows a.toPayload,
      (paymentBySenderResponse db a row.1).isOk
  | .paymentsByReceiver a => ∀ row ∈ Partitions.paymentsByReceiver db.rows a.toPayload,
      (paymentByReceiverResponse db row.1 row.2).isOk
  | .contextualBySender a aliasHex => aliasHex.length ≤ 32 ∧
      ∃ name ∈ decodeFixedHex (aliasHex.length / 2) aliasHex,
        ∀ row ∈ Partitions.contextualBySender db.rows a.toPayload (padded 16 name),
          (contextualBySenderResponse db aliasHex row.1).isOk
  | .contextualByInbox tagHex => isLowercaseHex tagHex 16 ∧ ∃ tag ∈ decodeFixedHex 16 tagHex,
      ∀ row ∈ Partitions.contextualByInbox db.rows tag,
        (contextualByInboxResponse db row.1 row.2).isOk

/-- A client asks with its limit and from its cursor on; an error brings nothing. -/
def ask (db : Database) (limit : Option ℕ) (q : HistoryQuery) (cursor : ℕ) : List Item :=
  (q.answer db ⟨limit, some cursor⟩).toOption.getD []

end HistoryQuery

/-! ## Answers -/

theorem exists_of_isOk {ε α : Type} {x : Except ε α} (h : x.isOk = true) : ∃ a, x = .ok a := by
  cases x with
  | ok a => exact ⟨a, rfl⟩
  | error e => cases h

theorem handshake_item {db : Database} {txId : TxId} {sender receiver : AddressPayload}
    {blockTime : ℕ} {m : HandshakeResponse}
    (h : handshakeResponse db txId sender receiver blockTime = .ok m) :
    (m.txId, m.blockTime) = (txId, blockTime) := by
  obtain ⟨_, -, h⟩ := bind_ok h
  obtain ⟨_, -, h⟩ := bind_ok h
  obtain ⟨_, -, h⟩ := bind_ok h
  obtain ⟨_, -, rfl⟩ := map_ok h
  rfl

theorem paymentBySender_item {db : Database} {a : Address} {k : PaymentKeyBySender}
    {m : PaymentResponse} (h : paymentBySenderResponse db a k = .ok m) :
    (m.txId, m.blockTime) = (k.txId, k.blockTime) := by
  obtain ⟨_, -, h⟩ := bind_ok h
  obtain ⟨_, -, h⟩ := bind_ok h
  obtain ⟨_, -, rfl⟩ := map_ok h
  rfl

theorem paymentByReceiver_item {db : Database} {k : PaymentKeyByReceiver} {sender : AddressPayload}
    {m : PaymentResponse} (h : paymentByReceiverResponse db k sender = .ok m) :
    (m.txId, m.blockTime) = (k.txId, k.blockTime) := by
  obtain ⟨_, -, h⟩ := bind_ok h
  obtain ⟨_, -, h⟩ := bind_ok h
  obtain ⟨_, -, h⟩ := bind_ok h
  obtain ⟨_, -, rfl⟩ := map_ok h
  rfl

theorem contextualBySender_item {db : Database} {aliasHex : Bytes}
    {k : ContextualMessageBySenderKey} {m : ContextualMessageResponse}
    (h : contextualBySenderResponse db aliasHex k = .ok m) :
    (m.txId, m.blockTime) = (k.txId, k.blockTime) := by
  obtain ⟨_, -, h⟩ := bind_ok h
  obtain ⟨_, -, h⟩ := bind_ok h
  obtain ⟨_, -, rfl⟩ := map_ok h
  rfl

theorem contextualByInbox_item {db : Database} {k : ContextualMessageByInboxKey}
    {sender : AddressPayload} {m : ContextualMessageResponse}
    (h : contextualByInboxResponse db k sender = .ok m) :
    (m.txId, m.blockTime) = (k.txId, k.blockTime) := by
  obtain ⟨_, -, h⟩ := bind_ok h
  obtain ⟨_, -, rfl⟩ := map_ok h
  rfl

/-- Those that an endpoint can list: the last time ends the range. -/
def listed (items : List Item) : List Item := items.filter (·.2 < lastTime)

section
variable {κ ν τ : Type} {txId : κ → TxId} {time : κ → ℕ}

/-- A page of rows that can be sent lists the page of their items. -/
theorem page_items {p : Partition κ ν} {respond : κ × ν → Except ReadFault τ} {item : τ → Item}
    (hreads : ∀ row ∈ p, (respond row).isOk)
    (hitem : ∀ row m, respond row = .ok m → item m = (txId row.1, time row.1)) (limit cursor : ℕ) :
    (((page (fun row => txId row.1) limit (range time p cursor)).mapM respond).map fun l =>
        l.map item).toOption.getD [] =
      askRows Prod.fst Prod.snd limit (listed (HistoryQuery.itemsOf txId time p)) cursor := by
  have hpage : ∀ rows : Partition κ ν, (∀ row ∈ rows, row ∈ p) →
      ∃ ms, rows.mapM respond = .ok ms ∧
        ms.map item = rows.map fun row => (txId row.1, time row.1) := by
    intro rows hrows
    induction rows with
    | nil => exact ⟨[], rfl, rfl⟩
    | cons row rows ih =>
      obtain ⟨m, hm⟩ := exists_of_isOk (hreads row (hrows row (by simp)))
      obtain ⟨ms, hms, hitems⟩ := ih fun row hrow => hrows row (by simp [hrow])
      exact ⟨m :: ms, by rw [mapM_ok] at hms ⊢; exact .cons hm hms,
        by rw [List.map_cons, List.map_cons, hitem row m hm, hitems]⟩
  obtain ⟨ms, hms, hitems⟩ := hpage (page (fun row => txId row.1) limit (range time p cursor))
    fun row hrow => (List.mem_filter.mp
      ((firsts_sublist _ _).subset (List.mem_of_mem_take hrow))).1
  have hrows : range time p cursor =
      (p.filter fun row => time row.1 < lastTime).filter fun row => cursor ≤ time row.1 := by
    unfold range
    rw [List.filter_filter]
    refine List.filter_congr fun row _ => ?_
    simp
  have hlisted : listed (HistoryQuery.itemsOf txId time p) =
      (p.filter fun row => time row.1 < lastTime).map fun row => (txId row.1, time row.1) := by
    unfold listed HistoryQuery.itemsOf
    rw [List.filter_map]
    rfl
  rw [hms, hlisted, askRows_map, askRows, ← hrows]
  exact hitems

theorem ordered_sorted (within : κ → Bool) (fields : κ → List (List ℕ)) (p : Partition κ ν) :
    (HistoryQuery.itemsOf txId time (ordered within time fields p)).Pairwise (·.2 ≤ ·.2) := by
  refine List.pairwise_map.mpr ?_
  exact (List.pairwise_insertionSort _ _).imp fun hle => time_le_of_keyOrder hle

end

namespace HistoryQuery
variable {db : Database} {q : HistoryQuery}

theorem stored_sorted (rows : Rows) (q : HistoryQuery) : (q.stored rows).Pairwise (·.2 ≤ ·.2) := by
  cases q with
  | handshakesBySender a => exact ordered_sorted _ _ _
  | handshakesByReceiver a => exact ordered_sorted _ _ _
  | paymentsBySender a => exact ordered_sorted _ _ _
  | paymentsByReceiver a => exact ordered_sorted _ _ _
  | contextualBySender a aliasHex =>
    rw [stored]
    cases decodeFixedHex (aliasHex.length / 2) aliasHex with
    | none => exact .nil
    | some name => exact ordered_sorted _ _ _
  | contextualByInbox tagHex =>
    rw [stored]
    cases decodeFixedHex 16 tagHex with
    | none => exact .nil
    | some tag => exact ordered_sorted _ _ _

theorem limitOf_pos {limit : Option ℕ} (h : limit ≠ some 0) (q : HistoryQuery) :
    0 < q.limitOf limit := by
  have hpos : ∀ default, 0 < default → 0 < limit.getD default := by
    intro default hdefault
    cases limit with
    | none => exact hdefault
    | some n => exact Nat.pos_of_ne_zero fun hn => h (congrArg some hn)
  have h10 := hpos 10 (by omega)
  have h100 := hpos 100 (by omega)
  cases q <;> simp only [limitOf] <;> omega

/-- A query whose rows can be sent is answered by the page of its rows. -/
theorem ask_eq (hreads : q.Readable db) (limit : Option ℕ) :
    q.ask db limit =
      askRows Prod.fst Prod.snd (q.limitOf limit) (listed (q.stored db.rows)) := by
  funext cursor
  cases q with
  | handshakesBySender a => exact page_items hreads (fun _ _ h => handshake_item h) _ _
  | handshakesByReceiver a => exact page_items hreads (fun _ _ h => handshake_item h) _ _
  | paymentsBySender a => exact page_items hreads (fun _ _ h => paymentBySender_item h) _ _
  | paymentsByReceiver a => exact page_items hreads (fun _ _ h => paymentByReceiver_item h) _ _
  | contextualBySender a aliasHex =>
    obtain ⟨hlength, name, hname, hreads⟩ := hreads
    have hpage := page_items hreads (fun _ _ h => contextualBySender_item h)
      (min (limit.getD 10) 50) cursor
    simp only [ask, answer, getContextualMessagesBySender, if_neg (Nat.not_lt.mpr hlength),
      Option.mem_def.mp hname, stored, Option.map_some, Option.getD_some]
    exact hpage
  | contextualByInbox tagHex =>
    obtain ⟨htag, tag, hdecode, hreads⟩ := hreads
    have hpage := page_items hreads (fun _ _ h => contextualByInbox_item h)
      (min (limit.getD 100) 500) cursor
    simp only [ask, answer, getContextualMessagesByInbox, if_pos htag,
      Option.mem_def.mp hdecode, stored, Option.map_some, Option.getD_some]
    exact hpage

end HistoryQuery

/-- Every client, whether it begins or goes on from a block time, ends with every transaction of the
query once exactly where two things hold: each transaction has a row that can be listed, and at each
block time either every transaction without an earlier row has fewer than `limit` others before it
from that time on, or one has that comes later. -/
theorem history_complete_iff {db : Database} {q : HistoryQuery} (hreads : q.Readable db)
    {limit : Option ℕ} (hlimit : limit ≠ some 0) :
    (∀ received cursor, Continues Prod.fst Prod.snd (listed (q.stored db.rows)) received cursor →
      Completes (q.ask db limit) ((q.stored db.rows).map Prod.fst) received cursor) ↔
    (∀ item ∈ q.stored db.rows, ∃ item' ∈ listed (q.stored db.rows), item'.1 = item.1) ∧
      ∀ item ∈ listed (q.stored db.rows),
        Passable Prod.fst Prod.snd (q.limitOf limit) (listed (q.stored db.rows)) item.2 := by
  have hsorted : (listed (q.stored db.rows)).Pairwise (·.2 ≤ ·.2) :=
    (HistoryQuery.stored_sorted db.rows q).filter _
  have hpositive := HistoryQuery.limitOf_pos hlimit q
  have hsub : ∀ i ∈ (listed (q.stored db.rows)).map Prod.fst,
      i ∈ (q.stored db.rows).map Prod.fst := by
    intro i hi
    exact (List.filter_sublist.map Prod.fst).subset hi
  rw [HistoryQuery.ask_eq hreads, ← completes_iff hsorted hpositive]
  constructor
  · intro h
    have hlisted : ∀ item ∈ q.stored db.rows,
        ∃ item' ∈ listed (q.stored db.rows), item'.1 = item.1 := by
      intro item hitem
      obtain ⟨enough, hcompletes⟩ := h [] 0 ⟨.nil, by simp, by simp, .inl ⟨rfl, rfl⟩⟩
      obtain ⟨result, hresult, -, hcovers⟩ := hcompletes enough le_rfl
      rcases collect_subset hresult ((hcovers item.1).mpr (List.mem_map_of_mem hitem)) with
        hin | ⟨cursor, hin⟩
      · exact absurd hin List.not_mem_nil
      · obtain ⟨⟨item', hitem', -, hid⟩, -⟩ := mem_askRows.mp hin
        exact ⟨item', hitem', hid⟩
    refine ⟨hlisted, fun received cursor hcontinues => ?_⟩
    obtain ⟨enough, hcompletes⟩ := h received cursor hcontinues
    refine ⟨enough, fun fuel hfuel => ?_⟩
    obtain ⟨result, hresult, hnodup, hcovers⟩ := hcompletes fuel hfuel
    refine ⟨result, hresult, hnodup, fun i => ⟨fun hi => ?_, fun hi => (hcovers i).mpr (hsub i hi)⟩⟩
    obtain ⟨item, hitem, rfl⟩ := List.mem_map.mp ((hcovers i).mp hi)
    obtain ⟨item', hitem', hid⟩ := hlisted item hitem
    exact hid ▸ List.mem_map_of_mem hitem'
  · rintro ⟨hlisted, h⟩ received cursor hcontinues
    obtain ⟨enough, hcompletes⟩ := h received cursor hcontinues
    refine ⟨enough, fun fuel hfuel => ?_⟩
    obtain ⟨result, hresult, hnodup, hcovers⟩ := hcompletes fuel hfuel
    refine ⟨result, hresult, hnodup, fun i => ⟨fun hi => hsub i ((hcovers i).mp hi), fun hi => ?_⟩⟩
    obtain ⟨item, hitem, rfl⟩ := List.mem_map.mp hi
    obtain ⟨item', hitem', hid⟩ := hlisted item hitem
    exact (hcovers item.1).mpr (hid ▸ List.mem_map_of_mem hitem')

/-! ### A full block -/

def sampleAddress (owner : UInt8) : Address := ⟨.pubKey, List.replicate 32 owner⟩

/-- Handshakes of one block to one receiver. -/
def sampleStore (ids : List UInt8) : Database :=
  { Database.empty with
    rows := { Rows.empty with
      handshakeByReceiver := ids.map fun id =>
        (⟨(sampleAddress 7).toPayload, 5, List.replicate 32 1, 0, List.replicate 32 id⟩, default)
      txIdToHandshake := ids.map fun id => (List.replicate 32 id, [0]) } }

/-- Three handshakes in one block, and a page of two: the third is never sent. -/
theorem full_block_stops : ¬ Completes
    ((HistoryQuery.handshakesByReceiver (sampleAddress 7)).ask (sampleStore [1, 2, 3]) (some 2))
    (((HistoryQuery.handshakesByReceiver (sampleAddress 7)).stored
      (sampleStore [1, 2, 3]).rows).map Prod.fst) [] 0 := by
  rintro ⟨enough, hcompletes⟩
  have hstops : collect ((HistoryQuery.handshakesByReceiver (sampleAddress 7)).ask
      (sampleStore [1, 2, 3]) (some 2)) 2 [] 0 =
        some [List.replicate 32 1, List.replicate 32 2] := by decide +kernel
  have hthird : List.replicate 32 3 ∈ ((HistoryQuery.handshakesByReceiver (sampleAddress 7)).stored
      (sampleStore [1, 2, 3]).rows).map Prod.fst := by decide +kernel
  obtain ⟨result, hresult, -, hcovers⟩ := hcompletes (2 + enough) (by omega)
  obtain rfl := Option.some.inj ((collect_mono hstops enough).symm.trans hresult)
  exact absurd ((hcovers _).mpr hthird) (by decide)

theorem two_handshakes_complete :
    let q := HistoryQuery.handshakesByReceiver (sampleAddress 7)
    let db := sampleStore [1, 2]
    (∀ received cursor, Continues Prod.fst Prod.snd (listed (q.stored db.rows)) received cursor →
      Completes (q.ask db (some 3)) ((q.stored db.rows).map Prod.fst) received cursor) ↔
    (∀ item ∈ q.stored db.rows, ∃ item' ∈ listed (q.stored db.rows), item'.1 = item.1) ∧
      ∀ item ∈ listed (q.stored db.rows),
        Passable Prod.fst Prod.snd (q.limitOf (some 3)) (listed (q.stored db.rows)) item.2 := by
  have hreads : (HistoryQuery.handshakesByReceiver (sampleAddress 7)).Readable
      (sampleStore [1, 2]) := by
    rw [HistoryQuery.Readable]
    decide +kernel
  exact history_complete_iff hreads (by decide)

end KaChatIndexer.ChatHistory

import KaChatIndexer.NamesStore

/-!
# Reading back what was stored

Every state decodes from its own encoding, up to the one integer that has none; the rows of a live
set whose names are padded give the live set back; and the journal comes back without its profile
undo.
-/
namespace KaChatIndexer.NamesReadBack
open ByteStrings NamesCodec NamesState NamesEnv NamesRegistry NamesApply NamesStore FinmapPatch

/-- An integer after `num8_encode` and `num8_decode`: the least one has no encoding. -/
def readInt (v : Int64) : Int64 := if v = Int64.minValue then 0 else v

def readState : Tracked → Tracked
  | .gap g => .gap g
  | .name n => .name { n with
      price := readInt n.price, periodStart := readInt n.periodStart,
      expiresAt := readInt n.expiresAt }
  | .offer o => .offer { o with refundAfter := readInt o.refundAfter }
  | .shard p => .shard ⟨readInt p.shard, p.authority, p.prices.map readInt⟩

/-- The integers of a state. -/
def stateInts : Tracked → List Int64
  | .gap _ => []
  | .name n => [n.price, n.periodStart, n.expiresAt]
  | .offer o => [o.refundAfter]
  | .shard p => p.shard :: p.prices.toList

theorem readInt_readInt (v : Int64) : readInt (readInt v) = readInt v := by
  unfold readInt
  by_cases h : v = Int64.minValue <;> simp [h]

theorem readState_readState (s : Tracked) : readState (readState s) = readState s := by
  cases s with
  | gap | name | offer => simp [readState, readInt_readInt]
  | shard p =>
    obtain ⟨shard, authority, prices⟩ := p
    simp only [readState, readInt_readInt]
    congr 2
    apply Subtype.ext
    change (prices.map readInt |>.map readInt).toList = (prices.map readInt).toList
    simp [List.Vector.toList_map, readInt_readInt]

theorem readState_eq {s : Tracked} (h : ∀ v ∈ stateInts s, v ≠ Int64.minValue) :
    readState s = s := by
  have hread : ∀ v ∈ stateInts s, readInt v = v := fun v hv => if_neg (h v hv)
  cases s with
  | gap => rfl
  | name | offer => simp_all [readState, stateInts]
  | shard p =>
    obtain ⟨shard, authority, prices⟩ := p
    have hprices : prices.map readInt = prices := by
      apply Subtype.ext
      change (prices.map readInt).toList = prices.toList
      rw [List.Vector.toList_map, List.map_congr_left (g := id), List.map_id]
      exact fun v hv => hread v (List.mem_cons_of_mem _ hv)
    simp only [readState, hprices, hread shard List.mem_cons_self]

section
variable {b : Bytes} {i : ℕ}

theorem drop_word {n : ℕ} (k : Bytes32) (h : 32 ≤ n) : k.toList.drop n = [] :=
  List.drop_eq_nil_of_le (by simpa using h)

theorem drop_num8 {n : ℕ} (v : Int64) (h : 8 ≤ n) : (num8Encode v).drop n = [] :=
  List.drop_eq_nil_of_le (by simpa using h)

theorem take32_chunk {k : Bytes32} (h : k.toList <+: b.drop i) : take32 b i = some k := by
  obtain ⟨rest, hrest⟩ := h
  have hk : k.toList.length = 32 := k.toList_length
  unfold take32 tryInto
  rw [← hrest, List.take_left' hk, dif_pos hk]
  exact congrArg some (Subtype.ext rfl)

theorem take8_chunk {v : Int64} (h : num8Encode v <+: b.drop i) :
    (take8 b i).map num8Decode = some (readInt v) := by
  obtain ⟨rest, hrest⟩ := h
  have hv := num8Encode_length v
  unfold take8 tryInto
  rw [← hrest, List.take_left' hv, dif_pos hv]
  exact congrArg some (num8Decode_encode rfl)

end

theorem gap_decode_encode (s : GapState) : GapState.decode s.encode = some s := by
  have hlo : take32 s.encode 1 = some s.lo := take32_chunk (by simp [GapState.encode])
  have hhi : take32 s.encode 34 = some s.hi :=
    take32_chunk (by simp [GapState.encode, List.drop_append, drop_word])
  unfold GapState.decode
  rw [if_neg (by simp [GapState.encode]), hlo, hhi]
  rfl

theorem name_decode_encode (s : NameState) : NameState.decode s.encode = some { s with
    price := readInt s.price, periodStart := readInt s.periodStart,
    expiresAt := readInt s.expiresAt } := by
  have hkey : take32 s.encode 1 = some s.key := take32_chunk (by simp [NameState.encode])
  have hname : take32 s.encode 34 = some s.name :=
    take32_chunk (by simp [NameState.encode, List.drop_append, drop_word])
  have howner : take32 s.encode 67 = some s.owner :=
    take32_chunk (by simp [NameState.encode, List.drop_append, drop_word])
  have hprice : (take8 s.encode 100).map num8Decode = some (readInt s.price) :=
    take8_chunk (by simp [NameState.encode, List.drop_append, drop_word])
  have hstart : (take8 s.encode 109).map num8Decode = some (readInt s.periodStart) :=
    take8_chunk (by simp [NameState.encode, List.drop_append, drop_word, drop_num8])
  have hexpires : (take8 s.encode 118).map num8Decode = some (readInt s.expiresAt) :=
    take8_chunk (by simp [NameState.encode, List.drop_append, drop_word, drop_num8])
  obtain ⟨price, hprice, hp⟩ := Option.map_eq_some_iff.mp hprice
  obtain ⟨start, hstart, hs⟩ := Option.map_eq_some_iff.mp hstart
  obtain ⟨expires, hexpires, he⟩ := Option.map_eq_some_iff.mp hexpires
  unfold NameState.decode
  rw [if_neg (by simp [NameState.encode]), hkey, hname, howner, hprice, hstart, hexpires]
  simp [hp, hs, he]

theorem offer_decode_encode (s : OfferState) :
    OfferState.decode s.encode = some { s with refundAfter := readInt s.refundAfter } := by
  obtain ⟨key, buyer, seller, refundAfter⟩ := s
  cases seller with
  | none =>
    set b := OfferState.encode ⟨key, buyer, none, refundAfter⟩ with hb
    have hkey : take32 b 1 = some key := take32_chunk (by simp [hb, OfferState.encode])
    have hbuyer : take32 b 34 = some buyer :=
      take32_chunk (by simp [hb, OfferState.encode, List.drop_append, drop_word])
    have hrefund : (take8 b 67).map num8Decode = some (readInt refundAfter) :=
      take8_chunk (by simp [hb, OfferState.encode, List.drop_append, drop_word])
    obtain ⟨refund, hrefund, hr⟩ := Option.map_eq_some_iff.mp hrefund
    unfold OfferState.decode
    rw [if_pos (by simp [hb, OfferState.encode]), hkey, hbuyer, hrefund]
    simp [hr]
  | some seller =>
    set b := OfferState.encode ⟨key, buyer, some seller, refundAfter⟩ with hb
    have hkey : take32 b 1 = some key := take32_chunk (by simp [hb, OfferState.encode])
    have hbuyer : take32 b 34 = some buyer :=
      take32_chunk (by simp [hb, OfferState.encode, List.drop_append, drop_word])
    have hseller : take32 b 67 = some seller :=
      take32_chunk (by simp [hb, OfferState.encode, List.drop_append, drop_word])
    have hrefund : (take8 b 100).map num8Decode = some (readInt refundAfter) :=
      take8_chunk (by simp [hb, OfferState.encode, List.drop_append, drop_word])
    obtain ⟨refund, hrefund, hr⟩ := Option.map_eq_some_iff.mp hrefund
    unfold OfferState.decode
    rw [if_neg (by simp [hb, OfferState.encode]), if_pos (by simp [hb, OfferState.encode]), hkey,
      hbuyer, hseller, hrefund]
    simp [hr]

theorem shard_decode_encode (s : PriceState) :
    PriceState.decode s.encode = some ⟨readInt s.shard, s.authority, s.prices.map readInt⟩ := by
  obtain ⟨shard, authority, ⟨prices, hprices⟩⟩ := s
  match prices, hprices with
  | [p0, p1, p2, p3, p4], hprices =>
    set b := PriceState.encode ⟨shard, authority, ⟨[p0, p1, p2, p3, p4], hprices⟩⟩ with hb
    have hencode : b = 0x08 :: (num8Encode shard ++ 0x20 :: (authority.toList ++
        0x08 :: (num8Encode p0 ++ 0x08 :: (num8Encode p1 ++ 0x08 :: (num8Encode p2 ++
        0x08 :: (num8Encode p3 ++ 0x08 :: num8Encode p4)))))) := by
      simp [hb, PriceState.encode]
    have hshard : (take8 b 1).map num8Decode = some (readInt shard) :=
      take8_chunk (by simp [hencode])
    have hauthority : take32 b 10 = some authority :=
      take32_chunk (by simp [hencode, List.drop_append, drop_num8])
    obtain ⟨n, hshard, hn⟩ := Option.map_eq_some_iff.mp hshard
    unfold PriceState.decode
    rw [if_neg (by simp [hencode]), hauthority, hshard]
    have h0 : (take8 b 43).map num8Decode = some (readInt p0) :=
      take8_chunk (by simp [hencode, List.drop_append, drop_word, drop_num8])
    have h1 : (take8 b 52).map num8Decode = some (readInt p1) :=
      take8_chunk (by simp [hencode, List.drop_append, drop_word, drop_num8])
    have h2 : (take8 b 61).map num8Decode = some (readInt p2) :=
      take8_chunk (by simp [hencode, List.drop_append, drop_word, drop_num8])
    have h3 : (take8 b 70).map num8Decode = some (readInt p3) :=
      take8_chunk (by simp [hencode, List.drop_append, drop_word, drop_num8])
    have h4 : (take8 b 79).map num8Decode = some (readInt p4) :=
      take8_chunk (by simp [hencode, List.drop_append, drop_word, drop_num8])
    have htags : b[42]? = some 8 ∧ b[51]? = some 8 ∧ b[60]? = some 8 ∧ b[69]? = some 8 ∧
        b[78]? = some 8 := by simp [hencode]
    simp [htags, h0, h1, h2, h3, h4, hn]
    rfl

/-- An undo entry as the store gives it back: without its profile undo. -/
def readEntry (e : UndoEntry) : UndoEntry :=
  ⟨e.block, e.added, e.removed.map fun p => (p.1, readState p.2), none⟩

/-- The journal as the store gives it back: entries with nothing but profile undo are gone. -/
def readJournal (journal : List UndoEntry) : List UndoEntry :=
  (journal.filter fun e => e.added ≠ [] ∨ e.removed ≠ []).map readEntry

theorem mapM_map_some {α β γ : Type*} {f : α → β} {g : β → Option γ} {h : α → γ} (l : List α)
    (hgf : ∀ a, g (f a) = some (h a)) : (l.map f).mapM g = some (l.map h) := by
  induction l with
  | nil => rfl
  | cons a l ih => simp [hgf, ih]

section
variable {env : Env} {x : TextEnv} (hhex : ∀ b, env.hexDecode (x.hexEncode b) = some b)
include hhex

theorem tracked_decode_encode (s : Tracked) :
    trackedDecode env (trackedEncode x s).1 (trackedEncode x s).2 = some (readState s) := by
  unfold trackedDecode trackedEncode
  cases s with
  | gap s => simp [hhex, gap_decode_encode, readState]
  | name s => simp [hhex, name_decode_encode, readState, show ascii "name" ≠ ascii "gap" by decide]
  | offer s =>
    simp [hhex, offer_decode_encode, readState, show ascii "offer" ≠ ascii "gap" by decide,
      show ascii "offer" ≠ ascii "name" by decide]
  | shard s =>
    simp [hhex, shard_decode_encode, readState, show ascii "shard" ≠ ascii "gap" by decide,
      show ascii "shard" ≠ ascii "name" by decide, show ascii "shard" ≠ ascii "offer" by decide]

theorem decode32_hexEncode (k : Bytes32) : decode32 env (x.hexEncode k.toList) = some k := by
  simp only [decode32, hhex, Option.bind_some, tryInto]
  rw [dif_pos k.toList_length]
  exact congrArg some (Subtype.ext rfl)

theorem outpoint_read (op : Outpoint) (more : List Json) :
    outpointOf env (.array (outpointItems x op ++ more)) = some op := by
  have hlt := op.2.toNat_lt
  simp [outpointOf, outpointItems, Json.item, Json.asStr, Json.asU64, u32OfU64,
    decode32_hexEncode hhex, hlt]

theorem removed_read (p : Outpoint × Tracked) :
    removedItemOf env (.array (outpointItems x p.1 ++ [.string (trackedEncode x p.2).1,
      .string (trackedEncode x p.2).2])) = some (p.1, readState p.2) := by
  unfold removedItemOf
  rw [outpoint_read hhex]
  simp [outpointItems, Json.item, Json.asStr, tracked_decode_encode hhex]

theorem entry_read (e : UndoEntry) : entryOf env (entryValue x e) = some (readEntry e) := by
  have hadded : (e.added.map fun op => Json.array (outpointItems x op)).mapM (outpointOf env) =
      some (e.added.map id) :=
    mapM_map_some e.added fun op => by simpa using outpoint_read hhex op []
  have hremoved := mapM_map_some e.removed (removed_read hhex)
  have ha : (entryValue x e).member (ascii "a") =
      .array (e.added.map fun op => Json.array (outpointItems x op)) := rfl
  have hr : (entryValue x e).member (ascii "r") = .array (e.removed.map fun p =>
      .array (outpointItems x p.1 ++ [.string (trackedEncode x p.2).1,
        .string (trackedEncode x p.2).2])) := rfl
  have hb : (entryValue x e).member (ascii "b") = .string (x.hexEncode e.block.toList) := rfl
  unfold entryOf
  rw [ha, hr, hb]
  simp only [Json.asArray, Json.asStr, Option.bind_eq_bind, Option.bind_some]
  rw [hadded, hremoved, decode32_hexEncode hhex]
  simp [readEntry]

/-- A journal whose text parses comes back. -/
theorem journal_read {journal : List UndoEntry}
    (hjson : x.parse (encodeJournal x journal) = some (journalValue x journal)) :
    decodeJournal env x (encodeJournal x journal) = some (readJournal journal) := by
  unfold decodeJournal
  rw [hjson]
  exact mapM_map_some _ (entry_read hhex)

end

section
variable {n : NameState} {name : Bytes}

/-- A name field that holds a valid name, zero-padded. -/
def IsPadded : Tracked → Prop
  | .name n => ∃ name, isValidName name = true ∧ n.name = padName name
  | _ => True

theorem isNameByte_ascii {c : UInt8} (h : isNameByte c = true) : c ≠ 0 ∧ c ≤ 0x7f := by
  obtain ⟨b⟩ := c
  revert b
  decide

theorem isValidName_bytes (h : isValidName name = true) :
    name.length ≤ 32 ∧ ∀ c ∈ name, isNameByte c = true := by
  unfold isValidName at h
  split at h
  · cases h
  · next hlen =>
    split at h
    · cases h
    · exact ⟨not_lt.mp fun hlt => hlen (.inr hlt), List.all_eq_true.mp h⟩

/-- The text of a padded name is the name. -/
theorem nameStr_padName (hname : n.name = padName name) (h : isValidName name = true) :
    n.nameStr = name := by
  obtain ⟨hlen, hbytes⟩ := isValidName_bytes h
  have htake : n.name.toList.takeWhile (· ≠ 0) = name := by
    rw [hname]
    change (name.take 32 ++ List.replicate (32 - name.length) 0).takeWhile (· ≠ 0) = name
    rw [List.take_of_length_le hlen, List.takeWhile_append_of_pos]
    · cases 32 - name.length with
      | zero => simp
      | succ k => simp [List.replicate_succ]
    · exact fun c hc => by simpa using (isNameByte_ascii (hbytes c hc)).1
  unfold NameState.nameStr
  rw [htake]
  exact fromUtf8Lossy_ascii fun c hc => (isNameByte_ascii (hbytes c hc)).2

end

section
variable {op : Outpoint} {s : Tracked}

@[simp] theorem columnBytes32_some (k : Bytes32) : columnBytes32 (some k.toList) = some k := by
  simp only [columnBytes32, Option.bind_some, tryInto]
  rw [dif_pos k.toList_length]
  exact congrArg some (Subtype.ext rfl)

@[simp] theorem bytes32OrZero_some (k : Bytes32) : bytes32OrZero (some k.toList) = k := by
  simp [bytes32OrZero]

theorem rowOf_blank (op : Outpoint) (s : Tracked) :
    (rowOf op s).txid = op.1.toList ∧ (rowOf op s).idx = op.2.toInt32 := by
  cases s <;> exact ⟨rfl, rfl⟩

theorem rowOutpoint_rowOf (op : Outpoint) (s : Tracked) : rowOutpoint (rowOf op s) = op := by
  obtain ⟨htxid, hidx⟩ := rowOf_blank op s
  simp [rowOutpoint, htxid, hidx]

/-- The prices column, split and parsed. -/
theorem prices_read (prices : List Int64) (hne : prices ≠ []) :
    (([0x2c].intercalate (prices.map i64ToString)).splitOn 0x2c).filterMap parseI64 = prices := by
  rw [List.splitOn_intercalate]
  · rw [List.filterMap_map]
    simp [parseI64_toString]
  · intro text htext
    obtain ⟨v, -, rfl⟩ := List.mem_map.mp htext
    exact comma_i64ToString v
  · simpa using hne

/-- A row gives back the state it was written for. -/
theorem rowTracked_rowOf (hpadded : IsPadded s) : rowTracked (rowOf op s) = some s := by
  cases s with
  | gap g => simp [rowTracked, rowOf, Row.blank]
  | name n =>
    obtain ⟨name, hvalid, hname⟩ := hpadded
    have htext : padName n.nameStr = n.name := by rw [nameStr_padName hname hvalid, hname]
    simp [rowTracked, rowOf, Row.blank, htext, show ascii "name" ≠ ascii "gap" by decide]
  | offer o =>
    have hseller : columnBytes32 (o.seller.map List.Vector.toList) = o.seller := by
      cases o.seller with
      | none => rfl
      | some seller => exact columnBytes32_some seller
    simp [rowTracked, rowOf, Row.blank, hseller, show ascii "offer" ≠ ascii "gap" by decide,
      show ascii "offer" ≠ ascii "name" by decide]
  | shard p =>
    have hlen : p.prices.toList.length = 5 := p.prices.toList_length
    have hne : p.prices.toList ≠ [] := by
      intro h
      simp [h] at hlen
    have hprices : rowTracked.tryPrices p.prices.toList = some p.prices := by
      unfold rowTracked.tryPrices
      rw [dif_pos hlen]
      exact congrArg some (Subtype.ext rfl)
    simp [rowTracked, rowOf, Row.blank, prices_read _ hne, hprices,
      show ascii "shard" ≠ ascii "gap" by decide, show ascii "shard" ≠ ascii "name" by decide,
      show ascii "shard" ≠ ascii "offer" by decide]

theorem mem_utxoEntries {env : Env} {utxos : UtxoMap} {p : Outpoint × Tracked} :
    p ∈ utxoEntries env utxos ↔ utxos.lookup p.1 = some p.2 := by
  simp only [utxoEntries, List.mem_filterMap, (env.iter utxos).2.2, Option.map_eq_some_iff]
  constructor
  · rintro ⟨op, -, s, hs, rfl⟩
    exact hs
  · intro h
    exact ⟨p.1, Finmap.mem_iff.mpr ⟨p.2, h⟩, p.2, h, rfl⟩

theorem loadUtxos_rows {entries : List (Outpoint × Tracked)} (h : ∀ p ∈ entries, IsPadded p.2) :
    loadUtxos (entries.map fun p => rowOf p.1 p.2) = insertAll entries ∅ := by
  unfold loadUtxos insertAll
  generalize (∅ : UtxoMap) = m
  induction entries generalizing m with
  | nil => rfl
  | cons p entries ih =>
    rw [List.map_cons, List.foldl_cons, List.foldl_cons, rowTracked_rowOf (h p List.mem_cons_self),
      rowOutpoint_rowOf]
    exact ih (fun q hq => h q (List.mem_cons_of_mem p hq)) _

/-- The rows of a live set whose names are padded give the live set back. -/
theorem loadUtxos_utxoRows {env : Env} {utxos : UtxoMap}
    (h : ∀ op s, utxos.lookup op = some s → IsPadded s) :
    loadUtxos (utxoRows env utxos) = utxos := by
  have hentries : ∀ p ∈ utxoEntries env utxos, utxos.lookup p.1 = some p.2 :=
    fun p hp => mem_utxoEntries.mp hp
  rw [utxoRows, loadUtxos_rows fun p hp => h p.1 p.2 (hentries p hp)]
  apply Finmap.ext_lookup
  intro op
  rw [lookup_insertAll hentries]
  split
  · rfl
  · next hop =>
    rw [Finmap.lookup_empty]
    cases hlookup : utxos.lookup op with
    | none => rfl
    | some s =>
      have hmem : (op, s) ∈ utxoEntries env utxos := mem_utxoEntries.mpr hlookup
      exact absurd (List.mem_map_of_mem hmem) hop

end

end KaChatIndexer.NamesReadBack

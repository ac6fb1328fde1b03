import KaChatIndexer.ChatAcceptance
import KaChatIndexer.ChatSlots

/-!
# Runs of the chat indexer

What one event does to the records and the rows, said once, and the rule by which an invariant of
every event holds in every state that a run reaches.
-/
namespace KaChatIndexer.ChatRuns
open ByteStrings ChatPayload ChatRows ChatBlocks ChatAcceptance ChatSlots Fallible

variable {env : Env}

/-! ## Records -/

/-- The accepting block of a record, and its DAA score. -/
def acceptorOf (p : Acceptance) (key : AcceptanceKey) : Option (Hash × ℕ) :=
  (get p key).map fun v => (v.acceptingBlockHash, v.acceptingDaa)

theorem get_updateRecord (p : Acceptance) (key : AcceptanceKey)
    (f : AcceptanceValue → AcceptanceValue) (k : AcceptanceKey) :
    get (updateRecord p key f) k = if k = key then (get p k).map f else get p k := by
  unfold updateRecord
  by_cases hk : k = key
  · subst hk
    cases hget : get p k with
    | none => simp [hget]
    | some old => simp [get_put]
  · cases get p key with
    | none => simp [hk]
    | some old => simp [get_put, hk]

theorem entriesOf_updateAcceptance (p : Acceptance) (key : AcceptanceKey) (hash : Hash) (daa : ℕ)
    (k : AcceptanceKey) : entriesOf (updateAcceptance p key hash daa) k = entriesOf p k := by
  unfold entriesOf updateAcceptance
  rw [get_updateRecord]
  split
  · simp [Function.comp_def]
  · rfl

theorem acceptorOf_updateAcceptance (p : Acceptance) (key : AcceptanceKey) (hash : Hash) (daa : ℕ)
    (k : AcceptanceKey) : acceptorOf (updateAcceptance p key hash daa) k =
      if k = key then (acceptorOf p k).map fun _ => (hash, daa) else acceptorOf p k := by
  unfold acceptorOf updateAcceptance
  rw [get_updateRecord]
  split
  · simp [Function.comp_def]
  · rfl

theorem entriesOf_insertAcceptance (p : Acceptance) (key : AcceptanceKey)
    (entries : List InsertionEntry) (k : AcceptanceKey) :
    entriesOf (insertAcceptance p key entries) k =
      if k = key then entriesOf p k ++ entries else entriesOf p k := by
  unfold entriesOf insertAcceptance
  by_cases hk : k = key
  · subst hk
    cases hget : get p k with
    | none => simp [get_put]
    | some old => simp [get_put]
  · cases get p key with
    | none => simp [get_put, hk]
    | some old => simp [get_put, hk]

/-- A new record has no acceptor yet. -/
theorem acceptorOf_insertAcceptance (p : Acceptance) (key : AcceptanceKey)
    (entries : List InsertionEntry) (k : AcceptanceKey) :
    acceptorOf (insertAcceptance p key entries) k =
      if k = key then some ((acceptorOf p k).getD (zeroHash, 0)) else acceptorOf p k := by
  unfold acceptorOf insertAcceptance
  by_cases hk : k = key
  · subst hk
    cases hget : get p k with
    | none => simp [get_put]
    | some old => simp [get_put]
  · cases get p key with
    | none => simp [get_put, hk]
    | some old => simp [get_put, hk]

theorem entriesOf_cleared (p : Acceptance) (key k : AcceptanceKey) :
    entriesOf (updateRecord p key fun old => { old with entries := [] }) k =
      if k = key then [] else entriesOf p k := by
  unfold entriesOf
  rw [get_updateRecord]
  split
  · cases get p k <;> rfl
  · rfl

theorem acceptorOf_cleared (p : Acceptance) (key k : AcceptanceKey) :
    acceptorOf (updateRecord p key fun old => { old with entries := [] }) k = acceptorOf p k := by
  unfold acceptorOf
  rw [get_updateRecord]
  split
  · simp [Function.comp_def]
  · rfl

theorem acceptorOf_isSome {p : Acceptance} {key : AcceptanceKey} :
    (acceptorOf p key).isSome ↔ key ∈ keys p := by
  rw [acceptorOf, Option.isSome_map, get_isSome]

/-! ## Events that succeed -/

/-- The sighting that the handlers of a transaction see. -/
def sightingOf (env : Env) (header : RpcHeader) (tx : RpcTransaction)
    (sender : Option AddressPayload) : Sighting :=
  ⟨header, tx.txId, (resolvePrimaryReceiver env tx.outputs sender).1,
    (resolvePrimaryReceiver env tx.outputs sender).2, sender⟩

/-- What a handler writes, or nothing where a personal indexer does not keep the operation. -/
def Handled (env : Env) (s : Sighting) (op : SealedOperation) (rows : Rows) (w : Written) : Prop :=
  if storeContent env s op then handleOperation s op rows = some w else w = ⟨rows, [], []⟩

theorem indexTransaction_ok {header : RpcHeader} {tx : RpcTransaction} {op : SealedOperation}
    {sender : Option AddressPayload} {wtx wtx' : Database}
    (h : indexTransaction env header tx op sender wtx = .ok wtx') :
    ∃ w owners, Handled env (sightingOf env header tx sender) op wtx.rows w ∧
      (∀ txId owner, get owners txId = some owner → get wtx.output0Owner txId = some owner ∨
        owner = (output0 env tx).getD default) ∧
      wtx' = { wtx with
        output0Owner := owners
        rows := w.rows
        acceptance := insertAcceptance wtx.acceptance
          ⟨tx.txId, (sightingOf env header tx sender).receiver⟩ w.entries
        pushes := wtx.pushes ++ w.pushes } := by
  unfold indexTransaction at h
  dsimp only at h
  split at h
  · cases h
  · next w hw =>
    refine ⟨w, _, ?_, ?_, (Except.ok.inj h).symm⟩
    · unfold Handled sightingOf
      split at hw
      · next hstore =>
        rw [if_pos hstore]
        exact hw
      · next hstore =>
        rw [if_neg hstore]
        exact (Option.some.inj hw).symm
    · intro txId owner hget
      split at hget
      · rw [get_put] at hget
        split at hget
        · exact .inr (Option.some.inj hget).symm
        · exact .inl hget
      · exact .inl hget

theorem handleSenderAddress_ok {address : ScriptPublicKey} {txId : TxId} {daa : ℕ}
    {db db' : Database} (h : handleSenderAddress env address txId daa db = .ok db') :
    ∃ sender key rows pushes, AddressPayload.tryFrom env address = some sender ∧
      keyByTxId db.acceptance txId = .ok (some key) ∧
      resolveEntries ⟨sender, daa, db.rows⟩ (entriesOf db.acceptance key) db.rows =
        some (rows, pushes) ∧
      db' = { db with
        pendingSenders := erase db.pendingSenders (daa, txId)
        acceptance := updateRecord db.acceptance key fun old => { old with entries := [] }
        rows := rows
        pushes := db.pushes ++ pushes } := by
  unfold handleSenderAddress at h
  split at h
  · cases h
  · next sender hsender =>
    obtain ⟨key, hkey, h⟩ := bind_ok h
    cases key with
    | none => cases h
    | some key =>
      dsimp only at h
      split at h
      · cases h
      · next rows pushes hresolve =>
        exact ⟨sender, key, rows, pushes, hsender, hkey, hresolve, (Except.ok.inj h).symm⟩

/-- The rows, the pushes and what waits in the records are those of before. -/
structure Untouched (db db' : Database) : Prop where
  rows : db'.rows = db.rows
  pushes : db'.pushes = db.pushes
  headers : db'.headers = db.headers
  owners : db'.output0Owner = db.output0Owner
  keys : ∀ key, key ∈ keys db'.acceptance ↔ key ∈ keys db.acceptance
  entries : ∀ key, entriesOf db'.acceptance key = entriesOf db.acceptance key

theorem Untouched.refl (db : Database) : Untouched db db :=
  ⟨rfl, rfl, rfl, rfl, fun _ => .rfl, fun _ => rfl⟩

theorem Untouched.trans {db db' db'' : Database} (h : Untouched db db') (h' : Untouched db' db'') :
    Untouched db db'' where
  rows := h'.rows.trans h.rows
  pushes := h'.pushes.trans h.pushes
  headers := h'.headers.trans h.headers
  owners := h'.owners.trans h.owners
  keys key := (h'.keys key).trans (h.keys key)
  entries key := (h'.entries key).trans (h.entries key)

theorem keys_updateAcceptance (p : Acceptance) (key : AcceptanceKey) (hash : Hash) (daa : ℕ)
    (k : AcceptanceKey) : k ∈ keys (updateAcceptance p key hash daa) ↔ k ∈ keys p := by
  rw [← acceptorOf_isSome, ← acceptorOf_isSome, acceptorOf_updateAcceptance]
  split
  · rw [Option.isSome_map]
  · rfl

theorem removeAccepted_untouched {hash : Hash} {daa : ℕ} {txId : TxId} {db db' : Database}
    (h : removeAccepted hash daa txId db = .ok db') : Untouched db db' := by
  obtain ⟨key, -, h⟩ := bind_ok h
  cases key with
  | none => cases h
  | some key =>
    obtain rfl := Except.ok.inj h
    exact ⟨rfl, rfl, rfl, rfl, fun k => keys_updateAcceptance _ _ _ _ k,
      fun k => entriesOf_updateAcceptance _ _ _ _ k⟩

theorem addAccepted_untouched {hash : Hash} {daa : ℕ} {txId : TxId} {db db' : Database}
    (h : addAccepted hash daa txId db = .ok db') : Untouched db db' := by
  obtain ⟨key, -, rfl⟩ := map_ok h
  cases key with
  | none => exact .refl db
  | some key =>
    exact ⟨rfl, rfl, rfl, rfl, fun k => keys_updateAcceptance _ _ _ _ k,
      fun k => entriesOf_updateAcceptance _ _ _ _ k⟩

theorem handleVccRemoval_untouched {hash : Hash} {db db' : Database}
    (h : handleVccRemoval hash db = .ok db') : Untouched db db' := by
  unfold handleVccRemoval at h
  split at h
  · obtain rfl := Except.ok.inj h
    exact .refl db
  · obtain ⟨daa, -, h⟩ := bind_ok h
    have hstart : Untouched db
        { db with acceptingBlockToTxIds := erase db.acceptingBlockToTxIds hash } :=
      ⟨rfl, rfl, rfl, rfl, fun _ => .rfl, fun _ => rfl⟩
    exact steps_inv (fun _ => Untouched db) (fun _ _ _ _ _ _ _ hs hstep =>
      hs.trans (removeAccepted_untouched hstep)) hstart h

theorem handleVccAddition_untouched {block : Hash × List TxId} {db db' : Database}
    (h : handleVccAddition block db = .ok db') : Untouched db db' := by
  obtain ⟨daa, -, h⟩ := bind_ok h
  obtain ⟨db'', hadded, rfl⟩ := map_ok h
  have hfold : Untouched db db'' :=
    steps_inv (fun _ => Untouched db) (fun _ _ _ _ _ _ _ hs hstep =>
      hs.trans (addAccepted_untouched hstep)) (.refl db) hadded
  exact ⟨hfold.rows, hfold.pushes, hfold.headers, hfold.owners, hfold.keys, hfold.entries⟩

/-- A change removes, adds, and ends with a block that it added. -/
theorem handleVcc_ok {change : ChainChange} {db db' : Database}
    (h : handleVcc change db = .ok db') : ∃ middle,
      foldSteps handleVccRemoval change.removed db = .ok middle ∧
        foldSteps handleVccAddition change.accepted middle = .ok db' := by
  obtain ⟨middle, hremoved, h⟩ := bind_ok h
  obtain ⟨last, hadded, h⟩ := bind_ok h
  refine ⟨middle, hremoved, ?_⟩
  cases hlast : change.added.getLast? with
  | none => simp [hlast] at h
  | some hash =>
    simp only [hlast] at h
    obtain ⟨_, -, rfl⟩ := map_ok h
    exact hadded

theorem removals_untouched {hashes : List Hash} {db db' : Database}
    (h : foldSteps handleVccRemoval hashes db = .ok db') : Untouched db db' :=
  steps_inv (fun _ => Untouched db) (fun _ _ _ _ _ _ _ hs hstep =>
    hs.trans (handleVccRemoval_untouched hstep)) (.refl db) h

theorem additions_untouched {blocks : List (Hash × List TxId)} {db db' : Database}
    (h : foldSteps handleVccAddition blocks db = .ok db') : Untouched db db' :=
  steps_inv (fun _ => Untouched db) (fun _ _ _ _ _ _ _ hs hstep =>
    hs.trans (handleVccAddition_untouched hstep)) (.refl db) h

theorem handleVcc_untouched {change : ChainChange} {db db' : Database}
    (h : handleVcc change db = .ok db') : Untouched db db' := by
  obtain ⟨middle, hremoved, hadded⟩ := handleVcc_ok h
  exact (removals_untouched hremoved).trans (additions_untouched hadded)

/-! ## The rule for runs -/

/-- The state in which the first transaction of a block is looked at. -/
def begun (b : RpcBlock) (db : Database) : Database :=
  { db with headers := put db.headers b.header.hash (b.header.blueWork, b.header.daaScore) }

/-- A sealed transaction of a further block is indexed, with the sender that the committed state
gives. -/
structure Indexes (env : Env) (done : List Event) (b : RpcBlock) (tx : RpcTransaction)
    (op : SealedOperation) (wtx wtx' : Database) : Prop where
  place : ∃ db earlier later, run env done .empty = .ok db ∧ get db.headers b.header.hash = none ∧
    b.transactions = earlier ++ tx :: later ∧
    foldSteps (handleTransaction env db b.header) earlier (begun b db) = .ok wtx
  parsed : parseSealedOperation tx.payload = some op
  indexed : indexTransaction env b.header tx op (senderIn env (handled (blocksOf done)) tx) wtx =
    .ok wtx'

/-- A block without a header is a further one. -/
theorem handled_new {before : List RpcBlock} {db : Database} (h : Reached env (handled before) db)
    {b : RpcBlock} (hnew : get db.headers b.header.hash = none) :
    handled (before ++ [b]) = handled before ++ [b] := by
  rw [handled_append, if_neg]
  intro hany
  obtain ⟨b', hb', hhash⟩ := List.any_eq_true.mp hany
  have hknown := (h.headers b.header.hash).mpr ⟨b', hb', by simpa using hhash⟩
  simp [hnew] at hknown

theorem sightings_before {bs cs : List RpcBlock} (h : bs <+: cs) :
    sightings [] bs <+: sightings [] cs := by
  obtain ⟨rest, rfl⟩ := h
  induction rest using List.reverseRecOn with
  | nil => simp
  | append_singleton rest b ih =>
    rw [← List.append_assoc, sightings_append]
    exact ih.trans (List.prefix_append _ _)

section
variable {events done rest : List Event} {b : RpcBlock} {tx : RpcTransaction} {op : SealedOperation}
  {wtx wtx' : Database}

theorem before_all (hevents : events = done ++ rest) :
    handled (blocksOf done) <+: handled (blocksOf events) := by
  rw [hevents, blocksOf_append]
  exact handled_before _ _

/-- The block of an indexed transaction is a further one. -/
theorem Indexes.further (hids : Identified (handled (blocksOf events)))
    (hevents : events = done ++ .block b :: rest) (h : Indexes env done b tx op wtx wtx') :
    handled (blocksOf (done ++ [.block b])) = handled (blocksOf done) ++ [b] := by
  obtain ⟨db, earlier, later, hdb, hnew, -, -⟩ := h.place
  have hreached := reached_run (hids.of_before (before_all hevents)) hdb
  rw [blocksOf_append]
  exact handled_new hreached hnew

theorem Indexes.mem_sealed (h : Indexes env done b tx op wtx wtx') : tx ∈ sealedOf b := by
  obtain ⟨db, earlier, later, -, -, htxs, -⟩ := h.place
  exact List.mem_filter.mpr ⟨by simp [htxs], by simp [isSealed, h.parsed]⟩

/-- It is a sighting of the run. -/
theorem Indexes.seen (hids : Identified (handled (blocksOf events)))
    (hevents : events = done ++ .block b :: rest) (h : Indexes env done b tx op wtx wtx') :
    (handled (blocksOf done), tx) ∈
      sightings [] (handled (blocksOf events)) := by
  have hprefix : handled (blocksOf (done ++ [.block b])) <+:
      handled (blocksOf events) := before_all (by
    rw [hevents, List.append_cons])
  refine (sightings_before hprefix).subset ?_
  rw [h.further hids hevents, sightings_append]
  exact List.mem_append_right _ (List.mem_map.mpr ⟨tx, h.mem_sealed, by simp⟩)

/-- A sender that is known has a standard script. -/
theorem senderIn_standard {a : AddressPayload}
    (h : senderIn env (handled (blocksOf done)) tx = some a) :
    ∃ script, AddressPayload.tryFrom env script = some a := by
  obtain ⟨parent, -, hout⟩ := Option.bind_eq_some_iff.mp h
  obtain ⟨output, -, htry⟩ := Option.bind_eq_some_iff.mp hout
  exact ⟨_, htry⟩

/-- Within a block records are only added, and what a change of the chain writes stays. -/
structure Begins (db wtx : Database) : Prop where
  keys : ∀ key ∈ keys db.acceptance, key ∈ keys wtx.acceptance
  headers : wtx.headers = db.headers
  tracked : wtx.acceptingBlockToTxIds = db.acceptingBlockToTxIds
  pending : wtx.pendingSenders = db.pendingSenders

theorem handleTransaction_begins {committed db db' : Database} {header : RpcHeader}
    (h : handleTransaction env committed header tx db = .ok db') : Begins db db' := by
  unfold handleTransaction at h
  split at h
  · obtain rfl := Except.ok.inj h
    exact ⟨fun _ => id, rfl, rfl, rfl⟩
  · split at h
    · cases h
    · obtain ⟨sender, -, hindexed⟩ := bind_ok h
      obtain ⟨w, owners, -, -, rfl⟩ := indexTransaction_ok hindexed
      refine ⟨fun key hkey => ?_, rfl, rfl, rfl⟩
      dsimp only
      rw [← acceptorOf_isSome, acceptorOf_insertAcceptance]
      split
      · rfl
      · exact acceptorOf_isSome.mpr hkey

/-- The state that was committed before the block of an indexed transaction. -/
theorem Indexes.begins (h : Indexes env done b tx op wtx wtx') : ∃ db,
    run env done .empty = .ok db ∧ get db.headers b.header.hash = none ∧
      Begins (begun b db) wtx := by
  obtain ⟨db, earlier, later, hdb, hnew, -, hwtx⟩ := h.place
  refine ⟨db, hdb, hnew, steps_inv (fun _ s => Begins (begun b db) s) ?_
    ⟨fun _ => id, rfl, rfl, rfl⟩ hwtx⟩
  intro _ _ _ _ s s' _ hs hstep
  obtain ⟨hkeys, hheaders, htracked, hpending⟩ := handleTransaction_begins hstep
  exact ⟨fun key hkey => hkeys key (hs.keys key hkey), hheaders.trans hs.headers,
    htracked.trans hs.tracked, hpending.trans hs.pending⟩

end

/-- The first transactions of a further block. -/
theorem transactions_inv {Q : Database → Prop} {events done rest : List Event} {b : RpcBlock}
    (hids : Identified (handled (blocksOf events))) (hevents : events = done ++ .block b :: rest)
    {db : Database} (hdb : run env done .empty = .ok db)
    (hnew : ChatRows.get db.headers b.header.hash = none) (hbegun : Q (begun b db))
    (hindex : ∀ tx op wtx wtx', Indexes env done b tx op wtx wtx' → Q wtx → Q wtx')
    {earlier later : List RpcTransaction} (htxs : b.transactions = earlier ++ later) {wtx : Database}
    (h : foldSteps (handleTransaction env db b.header) earlier (begun b db) = .ok wtx) : Q wtx := by
  have hreached := reached_run (hids.of_before (before_all hevents)) hdb
  have hwhole : handled (blocksOf done) ++ [b] <+: handled (blocksOf events) := by
    rw [← handled_new hreached hnew, show blocksOf done ++ [b] = blocksOf (done ++ [.block b])
      from (blocksOf_append done [.block b]).symm]
    exact before_all (by rw [hevents, List.append_cons])
  refine steps_inv (fun _ => Q) ?_ hbegun h
  intro first tx next hfirst wtx wtx' hwtx hQ htx
  have htxs : b.transactions = first ++ tx :: (next ++ later) := by
    rw [htxs, hfirst, List.append_assoc, List.cons_append]
  unfold handleTransaction at htx
  split at htx
  · obtain rfl := Except.ok.inj htx
    exact hQ
  · next op hparsed =>
    split at htx
    · cases htx
    · next outpoint _ hinputs =>
      obtain ⟨sender, hsender, hindexed⟩ := bind_ok htx
      obtain rfl := resolveSender_in hids hwhole hreached htxs hwtx (by simp [hinputs]) hsender
      exact hindex tx op wtx wtx' ⟨⟨db, first, next ++ later, hdb, hnew, htxs, hwtx⟩, hparsed,
        hindexed⟩ hQ

/-- A further block: what the header keeps, and each transaction that is indexed. -/
theorem block_inv {Q : Database → Prop} {events done rest : List Event} {b : RpcBlock}
    (hids : Identified (handled (blocksOf events))) (hevents : events = done ++ .block b :: rest)
    {db : Database} (hdb : run env done .empty = .ok db) (hbegun : Q (begun b db))
    (hindex : ∀ tx op wtx wtx', Indexes env done b tx op wtx wtx' → Q wtx → Q wtx')
    {db' : Database} (h : handleBlock env b db = .ok db') : Q db' := by
  unfold handleBlock at h
  dsimp only at h
  split at h
  · obtain rfl := Except.ok.inj h
    exact hbegun
  · next hknown =>
    exact transactions_inv hids hevents hdb (Option.not_isSome_iff_eq_none.mp hknown) hbegun hindex
      (List.append_nil _).symm h

/-- What holds of the start, and is kept by a header, by each transaction that is indexed, by a
change and by an answer, holds in every state that is reached. -/
theorem run_inv {P : List Event → Database → Prop} {events : List Event}
    (hids : Identified (handled (blocksOf events))) (hempty : P [] .empty)
    (hblock : ∀ (done : List Event) (b : RpcBlock) (rest : List Event) (db : Database),
      events = done ++ Event.block b :: rest → run env done .empty = .ok db → P done db →
        P (done ++ [Event.block b]) (begun b db))
    (hindex : ∀ (done : List Event) (b : RpcBlock) (rest : List Event) (tx : RpcTransaction)
      (op : SealedOperation) (wtx wtx' : Database), events = done ++ Event.block b :: rest →
        Indexes env done b tx op wtx wtx' → P (done ++ [Event.block b]) wtx →
          P (done ++ [Event.block b]) wtx')
    (hchange : ∀ (done : List Event) (c : ChainChange) (rest : List Event) (db db' : Database),
      events = done ++ Event.change c :: rest → run env done .empty = .ok db → P done db →
        handleVcc c db = .ok db' → P (done ++ [Event.change c]) db')
    (hresolved : ∀ (done : List Event) (address : ScriptPublicKey) (txId : TxId) (daa : ℕ)
      (rest : List Event) (db db' : Database),
      events = done ++ Event.resolved address txId daa :: rest → run env done .empty = .ok db →
        P done db → handleSenderAddress env address txId daa db = .ok db' →
          P (done ++ [Event.resolved address txId daa]) db')
    (hread : ∀ (done : List Event) (txId : TxId) (rest : List Event) (db : Database),
      events = done ++ Event.read txId :: rest → P done db → P (done ++ [Event.read txId]) db)
    {db : Database} (hrun : run env events .empty = .ok db) : P events db := by
  refine steps_inv P (fun done event rest hevents s s' hs hP hstep => ?_) hempty hrun
  cases event with
  | block b =>
    exact block_inv hids hevents hs (hblock done b rest s hevents hs hP)
      (fun tx op wtx wtx' => hindex done b rest tx op wtx wtx' hevents) hstep
  | change c => exact hchange done c rest s s' hevents hs hP hstep
  | resolved address txId daa => exact hresolved done address txId daa rest s s' hevents hs hP hstep
  | read txId =>
    obtain ⟨_, -, rfl⟩ := map_ok hstep
    exact hread done txId rest s hevents hP

end KaChatIndexer.ChatRuns

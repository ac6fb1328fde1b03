import KaChatIndexer.ChatHistory
import KaChatIndexer.ChatRuns

/-!
# Stored rows can be read

A row is sent only when its payload is stored, its addresses convert and its receiver is known. The
handlers see to all of it except for the receiver of a handshake or payment that pays no standard
address.
-/
namespace KaChatIndexer.ChatReadable
open ByteStrings ChatPayload ChatRows ChatBlocks ChatAcceptance ChatSlots ChatReads ChatRuns Fallible

variable {env : Env}

/-! ## Rows that can be sent -/

/-- The payload is there, and the receiver is one. -/
structure Ready (rows : Rows) (slot : Slot) : Prop where
  payload : kindOf slot ≠ .groupMessage → (payloadAt rows (txIdOf slot) (kindOf slot)).isSome
  receiver : ∀ r ∈ receiverOf slot, ∃ address, receiverAddress r = .ok address

def Converts (a : AddressPayload) : Prop := ∃ address, toRpcAddress a = .ok address

/-- So it is with each row, and with each that waits for its sender. -/
structure Whole (db : Database) : Prop where
  ready : ∀ slot a, senderAt db.rows slot = some a → Ready db.rows slot
  converts : ∀ slot a, senderAt db.rows slot = some a → Converts a
  waiting : ∀ key, ∀ slot ∈ entriesOf db.acceptance key, Ready db.rows slot

theorem default_converts : Converts default := ⟨none, rfl⟩

theorem version_receives (version : Version) (payload : List.Vector UInt8 33) :
    ∃ address, receiverAddress ⟨255 - version.code, payload⟩ = .ok address := by
  have hnonzero : 255 - version.code ≠ 0 := by cases version <;> decide
  have hback : 255 - (255 - version.code) = version.code := by cases version <;> decide
  have hfound : Version.tryFrom version.code = some version := by cases version <;> decide
  unfold receiverAddress toRpcAddress
  rw [if_neg hnonzero]
  dsimp only
  rw [hback, hfound]
  cases version <;> exact ⟨_, rfl⟩

/-- The address of a standard script is a receiver. -/
theorem standard_receives {script : ScriptPublicKey} {a : AddressPayload}
    (h : AddressPayload.tryFrom env script = some a) : ∃ address, receiverAddress a = .ok address := by
  unfold AddressPayload.tryFrom at h
  dsimp only at h
  split at h
  · cases h
  · split at h
    · cases h
    · obtain rfl := Option.some.inj h
      exact version_receives .pubKey _
    · obtain rfl := Option.some.inj h
      exact version_receives .pubKeyECDSA _
    · obtain rfl := Option.some.inj h
      exact version_receives .scriptHash _

theorem standard_converts {script : ScriptPublicKey} {a : AddressPayload}
    (h : AddressPayload.tryFrom env script = some a) : Converts a := by
  obtain ⟨address, haddress⟩ := standard_receives h
  obtain ⟨found, hfound, -⟩ := bind_ok haddress
  exact ⟨found, hfound⟩

theorem whole_empty : Whole .empty where
  ready slot a h := by cases slot <;> cases h
  converts slot a h := by cases slot <;> cases h
  waiting key slot h := absurd h List.not_mem_nil

/-! ## Steps -/

theorem payloadPut_ready {rows rows' : Rows} {kind : PushEventKind} {txId : TxId}
    {payload : ℕ × Bytes} (h : PayloadPut rows rows' kind txId payload) {slot : Slot}
    (hready : Ready rows slot) : Ready rows' slot := by
  refine ⟨fun hkind => ?_, hready.receiver⟩
  rw [h]
  split
  · rfl
  · exact hready.payload hkind

/-- Where each slot is ready, and so is the sender, filling them keeps all rows whole. -/
theorem filled_whole {rows rows' : Rows} {slots : List Slot} {sender : AddressPayload}
    (h : Filled rows rows' slots sender) (hslots : ∀ slot ∈ slots, Ready rows' slot)
    (hsender : Converts sender)
    (hready : ∀ slot a, senderAt rows slot = some a → Ready rows' slot)
    (hconverts : ∀ slot a, senderAt rows slot = some a → Converts a) {slot : Slot}
    {a : AddressPayload} (ha : senderAt rows' slot = some a) : Ready rows' slot ∧ Converts a := by
  rw [h] at ha
  split at ha
  · next hmem =>
    refine ⟨hslots slot hmem, ?_⟩
    obtain rfl := Option.some.inj ha
    unfold held
    split
    · next hold =>
      cases hprev : senderAt rows slot with
      | none => simp [hprev] at hold
      | some old => exact hconverts slot old hprev
    · exact hsender
  · exact ⟨hready slot a ha, hconverts slot a ha⟩

/-- What a handler writes can be sent, where the receiver of a handshake or payment is one. -/
theorem Whole.indexed {wtx wtx' : Database} (hwhole : Whole wtx) {header : RpcHeader}
    {tx : RpcTransaction} {op : SealedOperation} {sender : Option AddressPayload}
    (hsender : ∀ a ∈ sender, Converts a)
    (hpaid : (opKind op = .handshake ∨ opKind op = .payment) →
      storeContent env (sightingOf env header tx sender) op = true →
        ∃ address, receiverAddress (sightingOf env header tx sender).receiver = .ok address)
    (h : indexTransaction env header tx op sender wtx = .ok wtx') : Whole wtx' := by
  obtain ⟨w, owners, hhandled, -, rfl⟩ := indexTransaction_ok h
  have hsame : w.entries = [] → senderAt w.rows = senderAt wtx.rows →
      payloadAt w.rows = payloadAt wtx.rows → ∀ acceptance pushes, acceptance = insertAcceptance
        wtx.acceptance ⟨tx.txId, (sightingOf env header tx sender).receiver⟩ w.entries →
      Whole { wtx with
        output0Owner := owners, rows := w.rows, acceptance := acceptance, pushes := pushes } := by
    rintro hentries hsenders hpayloads acceptance pushes rfl
    have hready : ∀ slot, Ready wtx.rows slot → Ready w.rows slot := fun slot hslot =>
      ⟨hpayloads ▸ hslot.payload, hslot.receiver⟩
    refine ⟨fun slot a ha => ?_, fun slot a ha => ?_, fun key slot hslot => ?_⟩
    · exact hready slot (hwhole.ready slot a (hsenders ▸ ha))
    · exact hwhole.converts slot a (hsenders ▸ ha)
    · rw [hentries, entriesOf_insertAcceptance, List.append_nil, ite_self] at hslot
      exact hready slot (hwhole.waiting key slot hslot)
  unfold Handled at hhandled
  split at hhandled
  · next hstore =>
    by_cases hadmits : ∀ a ∈ sender, admits wtx.rows a op = true
    · have hwrites := handleOperation_writes hhandled hadmits
      have hslots : ∀ slot ∈ slotsOf (sightingOf env header tx sender) op, Ready w.rows slot := by
        intro slot hslot
        obtain ⟨hkind, htx, hreceiver⟩ := slotsOf_spec hslot
        refine ⟨fun _ => ?_, fun r hr => ?_⟩
        · rw [hwrites.payload, if_pos ⟨hkind, htx⟩]
          rfl
        · obtain ⟨rfl, hpaying⟩ := hreceiver r hr
          exact hpaid hpaying hstore
      have hready : ∀ slot, Ready wtx.rows slot → Ready w.rows slot := fun slot hslot =>
        payloadPut_ready hwrites.payload hslot
      have hfilled : ∀ slot ∈ (if (sightingOf env header tx sender).sender = none then
          (slotsOf (sightingOf env header tx sender) op).filter (keySender · = none)
          else slotsOf (sightingOf env header tx sender) op), Ready w.rows slot := by
        intro slot hslot
        split at hslot
        · exact hslots slot (List.mem_of_mem_filter hslot)
        · exact hslots slot hslot
      have hknown : Converts (sender.getD default) := by
        cases sender with
        | none => exact default_converts
        | some a => exact hsender a rfl
      have hrows : ∀ slot a, senderAt w.rows slot = some a → Ready w.rows slot ∧ Converts a :=
        fun slot a => filled_whole hwrites.rows hfilled hknown
          (fun slot a ha => hready slot (hwhole.ready slot a ha)) hwhole.converts
      refine ⟨fun slot a ha => (hrows slot a ha).1, fun slot a ha => (hrows slot a ha).2,
        fun key slot hslot => ?_⟩
      rw [entriesOf_insertAcceptance] at hslot
      split at hslot
      · rcases List.mem_append.mp hslot with hslot | hslot
        · exact hready slot (hwhole.waiting key slot hslot)
        · rw [hwrites.entries] at hslot
          split at hslot
          · exact hslots slot hslot
          · exact absurd hslot List.not_mem_nil
      · exact hready slot (hwhole.waiting key slot hslot)
    · push Not at hadmits
      obtain ⟨a, ha, hrejects⟩ := hadmits
      obtain ⟨hentries, hsenders, hpayloads⟩ :=
        handleOperation_rejects hhandled ha (by simpa using hrejects)
      exact hsame hentries hsenders hpayloads _ _ rfl
  · subst hhandled
    exact hsame rfl rfl rfl _ _ rfl

theorem Ready.withSender {rows : Rows} {slot : Slot} (h : Ready rows slot) (a : AddressPayload) :
    Ready rows (withSender a slot) := by
  refine ⟨fun hkind => ?_, fun r hr => h.receiver r (receiverOf_withSender a slot ▸ hr)⟩
  rw [kindOf_withSender] at hkind
  rw [txIdOf_withSender, kindOf_withSender]
  exact h.payload hkind

/-- An answer fills the row of an entry that is ready, and a message that is dropped takes only the
payload of group messages with it. -/
theorem entry_ready {r : Resolution} {entry : Slot} {rows rows' : Rows} {pushes : List PushEvent}
    (h : resolveEntry r entry rows = some (rows', pushes)) {slot : Slot}
    (hready : Ready rows slot) : Ready rows' slot := by
  rcases resolveEntry_answered h with ⟨-, hpayload⟩ | ⟨-, -, hpayload⟩
  · exact ⟨hpayload ▸ hready.payload, hready.receiver⟩
  · refine ⟨fun hkind => ?_, hready.receiver⟩
    rw [hpayload, if_neg fun hand => hkind hand.1]
    exact hready.payload hkind

theorem Whole.answered {db db' : Database} (hwhole : Whole db) {address : ScriptPublicKey}
    {txId : TxId} {daa : ℕ} (h : handleSenderAddress env address txId daa db = .ok db') :
    Whole db' := by
  obtain ⟨sender, key, rows, pushes, hsender, -, hresolve, rfl⟩ := handleSenderAddress_ok h
  have hrows : (∀ slot, Ready db.rows slot → Ready rows slot) ∧
      ∀ slot a, senderAt rows slot = some a → Ready rows slot ∧ Converts a := by
    refine resolveEntries_inv (fun rows _ => (∀ slot, Ready db.rows slot → Ready rows slot) ∧
      ∀ slot a, senderAt rows slot = some a → Ready rows slot ∧ Converts a) ?_ []
      ⟨fun _ => id, fun slot a ha => ⟨hwhole.ready slot a ha, hwhole.converts slot a ha⟩⟩ hresolve
    rintro entry hentry rows _ rows' pushes ⟨hkeep, hall⟩ hstep
    refine ⟨fun slot hslot => entry_ready hstep (hkeep slot hslot), fun slot a ha => ?_⟩
    have hwaiting : Ready rows' entry := entry_ready hstep (hkeep entry (hwhole.waiting key entry hentry))
    rcases resolveEntry_answered hstep with ⟨hfilled, -⟩ | ⟨-, hsenders, -⟩
    · refine filled_whole hfilled ?_ (standard_converts hsender)
        (fun slot a ha => entry_ready hstep (hall slot a ha).1) (fun slot a ha => (hall slot a ha).2) ha
      simpa using hwaiting.withSender sender
    · rw [hsenders] at ha
      split at ha
      · cases ha
      · exact ⟨entry_ready hstep (hall slot a ha).1, (hall slot a ha).2⟩
  refine ⟨fun slot a ha => (hrows.2 slot a ha).1, fun slot a ha => (hrows.2 slot a ha).2,
    fun k slot hslot => ?_⟩
  rw [entriesOf_cleared] at hslot
  split at hslot
  · exact absurd hslot List.not_mem_nil
  · exact hrows.1 slot (hwhole.waiting k slot hslot)

theorem Whole.untouched {db db' : Database} (hwhole : Whole db) (h : Untouched db db') :
    Whole db' where
  ready slot a ha := by
    rw [h.rows] at ha ⊢
    exact hwhole.ready slot a ha
  converts slot a ha := by
    rw [h.rows] at ha
    exact hwhole.converts slot a ha
  waiting key slot hslot := by
    rw [h.entries] at hslot
    rw [h.rows]
    exact hwhole.waiting key slot hslot

/-! ## Keys -/

/-- A row of the indexes that hold a sender is found under its key. -/
structure Distinct (rows : Rows) : Prop where
  handshakes : (keys rows.handshakeByReceiver).Nodup
  payments : (keys rows.paymentByReceiver).Nodup
  inbox : (keys rows.contextualMessageByInbox).Nodup

theorem handleOperation_distinct {s : Sighting} {op : SealedOperation} {rows : Rows} {w : Written}
    (hrows : Distinct rows) (h : handleOperation s op rows = some w) : Distinct w.rows := by
  obtain ⟨hhandshakes, hpayments, hinbox⟩ := hrows
  cases op with
  | sealedMessageOrSealedHandshakeVNone sealedHex =>
    obtain rfl := Option.some.inj h
    cases hsender : s.sender <;> simp only [handleHandshake, insertHandshake, hsender] <;>
      exact ⟨nodup_keys_fill hhandshakes _ _, hpayments, hinbox⟩
  | sealedHandshakeV2 sealedHex =>
    obtain rfl := Option.some.inj h
    cases hsender : s.sender <;> simp only [handleHandshakeV2, insertHandshake, hsender] <;>
      exact ⟨nodup_keys_fill hhandshakes _ _, hpayments, hinbox⟩
  | contextualMessageV1 cm =>
    obtain rfl := Option.some.inj h
    cases htag : cm.inboxTag.bind (decodeFixedHex 16) with
    | none =>
      cases hsender : s.sender <;> simp only [handleContextualMessage, htag, hsender] <;>
        exact ⟨hhandshakes, hpayments, hinbox⟩
    | some tag =>
      cases hsender : s.sender <;> simp only [handleContextualMessage, htag, hsender] <;>
        exact ⟨hhandshakes, hpayments, nodup_keys_fill hinbox _ _⟩
  | paymentV1 sealedHex =>
    obtain rfl := Option.some.inj h
    cases hsender : s.sender <;> simp only [handlePayment, hsender] <;>
      exact ⟨hhandshakes, nodup_keys_fill hpayments _ _, hinbox⟩
  | selfStashV1 stash =>
    obtain rfl := Option.some.inj h
    cases hsender : s.sender <;> simp only [handleSelfStash, hsender] <;>
      exact ⟨hhandshakes, hpayments, hinbox⟩
  | groupMessageV1 gm =>
    obtain ⟨id, pub, -, -, rfl⟩ := handleGroupMessage_some h
    unfold insertGroupMessage
    split
    · exact ⟨hhandshakes, hpayments, hinbox⟩
    · dsimp only
      split <;> exact ⟨hhandshakes, hpayments, hinbox⟩
  | groupControlV1 gc =>
    obtain ⟨recipient, -, rfl⟩ := handleGroupControl_some h
    unfold insertGroupControl
    cases recipient <;> cases s.sender <;> exact ⟨hhandshakes, hpayments, hinbox⟩

theorem resolveEntry_distinct {r : Resolution} {entry : Slot} {rows rows' : Rows}
    {pushes : List PushEvent} (hrows : Distinct rows)
    (h : resolveEntry r entry rows = some (rows', pushes)) : Distinct rows' := by
  obtain ⟨hhandshakes, hpayments, hinbox⟩ := hrows
  cases entry with
  | groupMessageByBlindedGroupId key =>
    unfold resolveEntry resolveGroupMessage at h
    obtain ⟨payload, -, h⟩ := Option.bind_eq_some_iff.mp h
    split at h
    · obtain ⟨pub, -, h⟩ := Option.map_eq_some_iff.mp h
      dsimp only at h
      split at h <;> obtain ⟨rfl, -⟩ := Prod.ext_iff.mp h <;> exact ⟨hhandshakes, hpayments, hinbox⟩
    · obtain ⟨rfl, -⟩ := Prod.ext_iff.mp (Option.some.inj h)
      exact ⟨hhandshakes, hpayments, hinbox⟩
  | handshakeByReceiver key =>
    obtain ⟨rfl, -⟩ := Prod.ext_iff.mp (Option.some.inj h)
    exact ⟨nodup_keys_fill hhandshakes _ _, hpayments, hinbox⟩
  | paymentByReceiver key =>
    obtain ⟨rfl, -⟩ := Prod.ext_iff.mp (Option.some.inj h)
    exact ⟨hhandshakes, nodup_keys_fill hpayments _ _, hinbox⟩
  | contextualMessageByInbox key =>
    obtain ⟨rfl, -⟩ := Prod.ext_iff.mp (Option.some.inj h)
    exact ⟨hhandshakes, hpayments, nodup_keys_fill hinbox _ _⟩
  | _ =>
    obtain ⟨rfl, -⟩ := Prod.ext_iff.mp (Option.some.inj h)
    exact ⟨hhandshakes, hpayments, hinbox⟩

theorem distinct_run {events : List Event} (hids : Identified (handled (blocksOf events)))
    {db : Database} (hrun : run env events .empty = .ok db) : Distinct db.rows := by
  refine run_inv (P := fun _ db => Distinct db.rows) hids ?_ ?_ ?_ ?_ ?_ ?_ hrun
  · exact ⟨List.nodup_nil, List.nodup_nil, List.nodup_nil⟩
  · exact fun _ _ _ _ _ _ h => h
  · intro done b rest tx op wtx wtx' _ hindexes h
    obtain ⟨w, owners, hhandled, -, rfl⟩ := indexTransaction_ok hindexes.indexed
    unfold Handled at hhandled
    split at hhandled
    · exact handleOperation_distinct h hhandled
    · subst hhandled
      exact h
  · intro done c rest db db' _ _ h hchange
    rw [(handleVcc_untouched hchange).rows]
    exact h
  · intro done address txId daa rest db db' _ _ h hanswer
    obtain ⟨sender, key, rows, pushes, -, -, hresolve, rfl⟩ := handleSenderAddress_ok hanswer
    exact resolveEntries_inv (fun rows _ => Distinct rows)
      (fun _ _ _ _ _ _ h hstep => resolveEntry_distinct h hstep) [] h hresolve
  · exact fun _ _ _ _ _ h => h

/-! ## Runs -/

/-- A handshake or payment that is kept pays a standard address. -/
def Paid (env : Env) (blocks : List RpcBlock) : Prop :=
  ∀ s ∈ sightings [] blocks, ∀ op ∈ parseSealedOperation s.2.payload,
    opKind op = .handshake ∨ opKind op = .payment →
      personalAllows env (senderIn env s.1 s.2) default = true → standardOutputs env s.2.outputs ≠ []

theorem receiver_standard {outputs : List RpcTransactionOutput} (sender : Option AddressPayload)
    (h : standardOutputs env outputs ≠ []) : ∃ script,
      AddressPayload.tryFrom env script = some (resolvePrimaryReceiver env outputs sender).2 := by
  have hmem : (resolvePrimaryReceiver env outputs sender) ∈ standardOutputs env outputs := by
    unfold resolvePrimaryReceiver
    cases hstandard : standardOutputs env outputs with
    | nil => exact absurd hstandard h
    | cons first rest =>
      dsimp only
      cases hfound : sender.bind fun s => (first :: rest).find? fun output => output.2 ≠ s with
      | none => simp
      | some output =>
        obtain ⟨s, -, hfind⟩ := Option.bind_eq_some_iff.mp hfound
        exact List.mem_of_find?_eq_some hfind
  obtain ⟨output, -, htry⟩ := List.mem_filterMap.mp hmem
  obtain ⟨a, ha, heq⟩ := Option.map_eq_some_iff.mp htry
  exact ⟨output.scriptPublicKey, by rw [ha, ← heq]⟩

theorem receiver_default {outputs : List RpcTransactionOutput} (sender : Option AddressPayload)
    (h : standardOutputs env outputs = []) : (resolvePrimaryReceiver env outputs sender).2 = default := by
  rw [resolvePrimaryReceiver, h]

theorem storeContent_paying {s : Sighting} {op : SealedOperation}
    (hkind : opKind op = .handshake ∨ opKind op = .payment) :
    storeContent env s op = personalAllows env s.sender s.receiver := by
  cases op <;> first | rfl | simp [opKind] at hkind

theorem whole_run {events : List Event} (hids : Identified (handled (blocksOf events)))
    (hpaid : Paid env (handled (blocksOf events))) {db : Database}
    (hrun : run env events .empty = .ok db) : Whole db := by
  refine run_inv (P := fun _ db => Whole db) hids whole_empty ?_ ?_ ?_ ?_ ?_ hrun
  · intro done b rest db _ _ h
    exact ⟨h.ready, h.converts, h.waiting⟩
  · intro done b rest tx op wtx wtx' hevents hindexes hwhole
    refine hwhole.indexed (fun a ha => ?_) (fun hkind hstore => ?_) hindexes.indexed
    · obtain ⟨script, hscript⟩ := senderIn_standard ha
      exact standard_converts hscript
    · by_cases hstandard : standardOutputs env tx.outputs = []
      · rw [storeContent_paying hkind] at hstore
        have hallows : personalAllows env (senderIn env (handled (blocksOf done)) tx) default = true := by
          rw [← receiver_default (senderIn env (handled (blocksOf done)) tx) hstandard]
          exact hstore
        exact absurd hstandard (hpaid _ (hindexes.seen hids hevents) op hindexes.parsed hkind hallows)
      · obtain ⟨script, hscript⟩ := receiver_standard (senderIn env (handled (blocksOf done)) tx) hstandard
        exact standard_receives hscript
  · intro done c rest db db' _ _ hwhole h
    exact hwhole.untouched (handleVcc_untouched h)
  · intro done address txId daa rest db db' _ _ hwhole h
    exact hwhole.answered h
  · intro done txId rest db _ hwhole
    exact hwhole

/-! ## Reads -/

/-- No endpoint for an address or an inbox fails, but for a request that is not well formed. -/
structure Served (db : Database) : Prop where
  handshakesBySender : ∀ a params, ∃ l, getHandshakesBySender db a params = .ok l
  handshakesByReceiver : ∀ a params, ∃ l, getHandshakesByReceiver db a params = .ok l
  paymentsBySender : ∀ a params, ∃ l, getPaymentsBySender db a params = .ok l
  paymentsByReceiver : ∀ a params, ∃ l, getPaymentsByReceiver db a params = .ok l
  contextualBySender : ∀ a aliasHex params e,
    getContextualMessagesBySender db a aliasHex params = .error e → e = .badRequest
  contextualByInbox : ∀ tagHex params e,
    getContextualMessagesByInbox db tagHex params = .error e → e = .badRequest

/-- Each row of these indexes has its payload, its sender converts and its receiver is one; there is
one record at most for a transaction; and so no read fails. -/
structure Intact (db : Database) : Prop where
  ready : ∀ slot a, senderAt db.rows slot = some a → Ready db.rows slot
  converts : ∀ slot a, senderAt db.rows slot = some a → Converts a
  oneRecord : OneRecord db
  served : Served db

/-- A page is sent where each row under its prefix can be sent. -/
theorem page_sent {κ ν τ : Type} {within : κ → Bool} {time : κ → ℕ} {fields : κ → List (List ℕ)}
    {txId : κ × ν → TxId} {p : Partition κ ν} {respond : κ × ν → Except ReadFault τ}
    (h : ∀ row ∈ p, ∃ r, respond row = .ok r) (limit cursor : ℕ) :
    ∃ l, (CursorPaging.page txId limit (range time (ordered within time fields p) cursor)).mapM
      respond = .ok l := by
  refine mapM_total fun row hrow => h row ?_
  have hrange := (CursorPaging.firsts_sublist _ _).subset (List.mem_of_mem_take hrow)
  have hordered := (List.mem_filter.mp hrange).1
  exact (List.mem_filter.mp ((List.perm_insertionSort _ _).mem_iff.mp hordered)).1

theorem page_never_fails {κ ν τ : Type} {within : κ → Bool} {time : κ → ℕ}
    {fields : κ → List (List ℕ)} {txId : κ × ν → TxId} {p : Partition κ ν}
    {respond : κ × ν → Except ReadFault τ} {e : ReadFault}
    (h : ∀ row ∈ p, ∃ r, respond row = .ok r) (limit cursor : ℕ) :
    (CursorPaging.page txId limit (range time (ordered within time fields p) cursor)).mapM
      respond ≠ .error e := by
  obtain ⟨l, hl⟩ := @page_sent _ _ _ within time fields txId p respond h limit cursor
  rw [hl]
  nofun

section
variable {db : Database} {txId : TxId}

theorem acceptingOf_ok (h : OneRecord db) (txId : TxId) : ∃ accepting, acceptingOf db txId = .ok accepting := by
  have hlength := h txId
  unfold acceptingOf acceptanceByTxId onlyRecord
  match hrecords : recordsOf db.acceptance txId with
  | [] => exact ⟨none, rfl⟩
  | [record] => exact ⟨_, rfl⟩
  | _ :: _ :: _ =>
    rw [hrecords] at hlength
    simp at hlength

theorem payloadOf_ok {ν : Type} {p : Partition TxId ν} (h : (ChatRows.get p txId).isSome) :
    ∃ payload, ChatReads.payloadOf p txId = .ok payload := by
  obtain ⟨payload, hpayload⟩ := Option.isSome_iff_exists.mp h
  exact ⟨payload, by rw [ChatReads.payloadOf, hpayload]⟩

theorem handshakeResponse_ok (hone : OneRecord db) {sender receiver : AddressPayload}
    (hsender : Converts sender) (hreceiver : ∃ address, receiverAddress receiver = .ok address)
    (hpayload : (ChatRows.get db.rows.txIdToHandshake txId).isSome) (blockTime : ℕ) :
    ∃ r, handshakeResponse db txId sender receiver blockTime = .ok r := by
  obtain ⟨senderText, hfrom⟩ := hsender
  obtain ⟨receiverText, hto⟩ := hreceiver
  obtain ⟨accepting, haccepting⟩ := acceptingOf_ok hone txId
  obtain ⟨payload, hpayload⟩ := payloadOf_ok hpayload
  refine ⟨⟨txId, senderText, receiverText, blockTime, accepting, hexString payload⟩, ?_⟩
  rw [handshakeResponse, hfrom, hto, haccepting, hpayload]
  rfl

theorem paymentBySenderResponse_ok (hone : OneRecord db) (a : Address) {k : PaymentKeyBySender}
    (hreceiver : ∃ address, receiverAddress k.receiver = .ok address)
    (hpayload : (ChatRows.get db.rows.txIdToPayment k.txId).isSome) :
    ∃ r, paymentBySenderResponse db a k = .ok r := by
  obtain ⟨receiverText, hto⟩ := hreceiver
  obtain ⟨accepting, haccepting⟩ := acceptingOf_ok hone k.txId
  obtain ⟨payment, hpayment⟩ := payloadOf_ok hpayload
  refine ⟨⟨k.txId, some a, receiverText, k.blockTime, payment.1, sealedMessage payment.2, accepting⟩, ?_⟩
  rw [paymentBySenderResponse, hpayment, haccepting, hto]
  rfl

theorem paymentByReceiverResponse_ok (hone : OneRecord db) {k : PaymentKeyByReceiver}
    {sender : AddressPayload} (hsender : Converts sender)
    (hreceiver : ∃ address, receiverAddress k.receiver = .ok address)
    (hpayload : (ChatRows.get db.rows.txIdToPayment k.txId).isSome) :
    ∃ r, paymentByReceiverResponse db k sender = .ok r := by
  obtain ⟨senderText, hfrom⟩ := hsender
  obtain ⟨receiverText, hto⟩ := hreceiver
  obtain ⟨accepting, haccepting⟩ := acceptingOf_ok hone k.txId
  obtain ⟨payment, hpayment⟩ := payloadOf_ok hpayload
  refine ⟨⟨k.txId, senderText, receiverText, k.blockTime, payment.1, sealedMessage payment.2,
    accepting⟩, ?_⟩
  rw [paymentByReceiverResponse, hpayment, haccepting, hfrom, hto]
  rfl

theorem contextualBySenderResponse_ok (hone : OneRecord db) (aliasHex : Bytes)
    {k : ContextualMessageBySenderKey} (hsender : Converts k.sender)
    (hpayload : (ChatRows.get db.rows.txIdToContextualMessage k.txId).isSome) :
    ∃ r, contextualBySenderResponse db aliasHex k = .ok r := by
  obtain ⟨senderText, hfrom⟩ := hsender
  obtain ⟨accepting, haccepting⟩ := acceptingOf_ok hone k.txId
  obtain ⟨payload, hpayload⟩ := payloadOf_ok hpayload
  refine ⟨⟨k.txId, senderText, aliasHex, k.blockTime, accepting, hexString payload⟩, ?_⟩
  rw [contextualBySenderResponse, hfrom, haccepting, hpayload]
  rfl

theorem contextualByInboxResponse_ok (hone : OneRecord db) (k : ContextualMessageByInboxKey)
    {sender : AddressPayload} (hsender : Converts sender) :
    ∃ r, contextualByInboxResponse db k sender = .ok r := by
  obtain ⟨senderText, hfrom⟩ := hsender
  obtain ⟨accepting, haccepting⟩ := acceptingOf_ok hone k.txId
  rw [contextualByInboxResponse, hfrom, haccepting]
  exact ⟨_, rfl⟩

theorem senderAt_of_row {κ : Type} [DecidableEq κ] {p : Partition κ Unit} {row : κ × Unit}
    (h : row ∈ p) : ChatRows.get p row.1 = some () := by
  obtain ⟨_, hget⟩ := Option.isSome_iff_exists.mp (get_isSome.mpr (List.mem_map_of_mem h))
  exact hget

theorem served (hwhole : Whole db) (hdistinct : Distinct db.rows) (hone : OneRecord db) :
    Served db where
  handshakesBySender a params := by
    refine page_sent (fun row hrow => ?_) _ _
    have hsender : senderAt db.rows (.handshakeBySender row.1) = some row.1.sender := by
      simp [senderAt, senderAt_of_row hrow]
    have hready := hwhole.ready _ _ hsender
    exact handshakeResponse_ok hone (hwhole.converts _ _ hsender) (hready.receiver _ rfl)
      (by simpa [payloadAt, kindOf, txIdOf] using hready.payload (by simp [kindOf])) _
  handshakesByReceiver a params := by
    refine page_sent (fun row hrow => ?_) _ _
    have hsender : senderAt db.rows (.handshakeByReceiver row.1) = some row.2 :=
      get_of_mem hdistinct.handshakes hrow
    have hready := hwhole.ready _ _ hsender
    exact handshakeResponse_ok hone (hwhole.converts _ _ hsender) (hready.receiver _ rfl)
      (by simpa [payloadAt, kindOf, txIdOf] using hready.payload (by simp [kindOf])) _
  paymentsBySender a params := by
    refine page_sent (fun row hrow => ?_) _ _
    have hsender : senderAt db.rows (.paymentBySender row.1) = some row.1.sender := by
      simp [senderAt, senderAt_of_row hrow]
    have hready := hwhole.ready _ _ hsender
    exact paymentBySenderResponse_ok hone a (hready.receiver _ rfl) (hready.payload (by simp [kindOf]))
  paymentsByReceiver a params := by
    refine page_sent (fun row hrow => ?_) _ _
    have hsender : senderAt db.rows (.paymentByReceiver row.1) = some row.2 :=
      get_of_mem hdistinct.payments hrow
    have hready := hwhole.ready _ _ hsender
    exact paymentByReceiverResponse_ok hone (hwhole.converts _ _ hsender) (hready.receiver _ rfl)
      (hready.payload (by simp [kindOf]))
  contextualBySender a aliasHex params e h := by
    unfold getContextualMessagesBySender at h
    dsimp only at h
    split at h
    · exact (Except.error.inj h).symm
    · split at h
      · exact (Except.error.inj h).symm
      · next name _ =>
        refine absurd h (page_never_fails (fun row hrow => ?_) _ _)
        have hsender : senderAt db.rows (.contextualMessageBySender row.1) = some row.1.sender := by
          simp [senderAt, senderAt_of_row hrow]
        have hready := hwhole.ready _ _ hsender
        exact contextualBySenderResponse_ok hone aliasHex (hwhole.converts _ _ hsender)
          (by simpa [payloadAt, kindOf, txIdOf] using hready.payload (by simp [kindOf]))
  contextualByInbox tagHex params e h := by
    unfold getContextualMessagesByInbox at h
    dsimp only at h
    split at h
    · exact (Except.error.inj h).symm
    · next tag _ =>
      refine absurd h (page_never_fails (fun row hrow => ?_) _ _)
      have hsender : senderAt db.rows (.contextualMessageByInbox row.1) = some row.2 :=
        get_of_mem hdistinct.inbox hrow
      exact contextualByInboxResponse_ok hone row.1 (hwhole.converts _ _ hsender)

end

/-- In every state that a run reaches, all stored rows can be read, where each handshake and payment
pays a standard address and each transaction keeps its receiver. -/
theorem intact_run {events : List Event} (hids : Identified (handled (blocksOf events)))
    (hpaid : Paid env (handled (blocksOf events))) (hsteady : Steady env (handled (blocksOf events)))
    {db : Database} (hrun : run env events .empty = .ok db) : Intact db := by
  have hwhole := whole_run hids hpaid hrun
  have hone : OneRecord db := ((reached_run hids hrun).oneRecord_iff hids).mpr hsteady
  exact ⟨hwhole.ready, hwhole.converts, hone, served hwhole (distinct_run hids hrun) hone⟩

/-! ### A handshake that pays nobody -/

def unpaid : List Event :=
  [.block (sampleBlock 2 sampleParent), .block (sampleBlock 1 (sampleTx 3 2 []))]

theorem unpaid_fails : ∃ db, run sampleEnv unpaid .empty = .ok db ∧
    getHandshakesBySender db ⟨.pubKey, List.replicate 32 7⟩ ⟨none, none⟩ = .error .emptyReceiver := by
  have hfails : okAnd (run sampleEnv unpaid .empty) (fun db =>
      decide (getHandshakesBySender db ⟨.pubKey, List.replicate 32 7⟩ ⟨none, none⟩ =
        .error .emptyReceiver)) = true := by decide +kernel
  obtain ⟨db, hrun, herror⟩ := exists_of_okAnd hfails
  exact ⟨db, hrun, of_decide_eq_true herror⟩

theorem parentFirst_intact : ∃ db, run sampleEnv parentFirst .empty = .ok db ∧ Intact db := by
  have hruns : okAnd (run sampleEnv parentFirst .empty) (fun _ => true) = true := by
    decide +kernel
  obtain ⟨db, hrun, -⟩ := exists_of_okAnd hruns
  have hpaid : Paid sampleEnv (handled (blocksOf parentFirst)) := by
    unfold Paid
    decide +kernel
  have hsteady : Steady sampleEnv (handled (blocksOf parentFirst)) := by
    unfold Steady
    decide +kernel
  exact ⟨db, hrun, intact_run (by decide +kernel) hpaid hsteady hrun⟩

end KaChatIndexer.ChatReadable

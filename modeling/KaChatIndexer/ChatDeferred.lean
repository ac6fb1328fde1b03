import KaChatIndexer.ChatChain
import KaChatIndexer.ChatGroups

/-!
# A sender that is told later

A sighting without a sender and the answer for it, against a sighting with the sender at once. They
leave the same rows where the receiver and the personal filter do not depend on the sender and
nothing of an earlier sighting is in the way.
-/
namespace KaChatIndexer.ChatDeferred
open ByteStrings ChatPayload ChatRows ChatBlocks ChatAcceptance ChatSlots ChatRuns ChatChain
open ChatGroups Fallible

variable {env : Env}

/-! ## Rows compared -/

/-- The same rows under every key, the same payloads and the same bindings. -/
structure SameRows (rows rows' : Rows) : Prop where
  senders : ∀ slot, senderAt rows slot = senderAt rows' slot
  payloads : ∀ txId kind, payloadAt rows txId kind = payloadAt rows' txId kind
  bindings : ∀ id, get rows.groupSenderBinding id = get rows'.groupSenderBinding id

/-- The transaction is handled without its sender and the sender is told then, or it is handled with
the sender at once: both succeed and leave the same rows. -/
def SameLater (env : Env) (header : RpcHeader) (tx : RpcTransaction) (op : SealedOperation)
    (address : ScriptPublicKey) (a : AddressPayload) (daa : ℕ) (db : Database) : Prop :=
  ∃ seen answered known, indexTransaction env header tx op none db = .ok seen ∧
    handleSenderAddress env address tx.txId daa seen = .ok answered ∧
      indexTransaction env header tx op (some a) db = .ok known ∧
        SameRows answered.rows known.rows

/-- The kinds whose keys have the receiver. -/
def hasReceiver : PushEventKind → Bool
  | .handshake | .contextual | .payment => true
  | _ => false

/-! ## The answer to a sighting -/

section

/-- A row that is filled twice. -/
theorem held_held (old : Option AddressPayload) (a : AddressPayload) :
    held (some (held old a)) a = held old a := by
  by_cases h : old.getD default ≠ default <;> simp [held, h]

theorem held_default_held (old : Option AddressPayload) (a : AddressPayload) :
    held (some (held old default)) a = held old a := by
  rw [held_default]
  rfl

/-- The entries that are no group messages are all answered. -/
theorem resolveEntries_filled (r : Resolution) {entries : List Slot} (rows : Rows)
    (h : ∀ entry ∈ entries, kindOf entry ≠ .groupMessage) : ∃ rows' pushes,
    resolveEntries r entries rows = some (rows', pushes) ∧
      Filled rows rows' (entries.map (withSender r.sender)) r.sender ∧
        payloadAt rows' = payloadAt rows ∧
          rows'.groupSenderBinding = rows.groupSenderBinding := by
  induction entries generalizing rows with
  | nil => exact ⟨rows, [], rfl, fun slot => by simp, rfl, rfl⟩
  | cons entry entries ih =>
    obtain ⟨middle, first, hfirst⟩ : ∃ middle first, resolveEntry r entry rows =
        some (middle, first) := by
      cases entry with
      | groupMessageByBlindedGroupId key => exact absurd rfl (h (.groupMessageByBlindedGroupId key) (List.mem_cons_self ..))
      | _ => exact ⟨_, _, rfl⟩
    obtain ⟨-, -, hbinding, -⟩ := resolveEntry_other (h entry (by simp)) hfirst
    obtain ⟨hfilled, hpayload⟩ := (resolveEntry_answered hfirst).resolve_right
      fun hdropped => h entry (by simp) hdropped.1
    obtain ⟨rows', rest, hrest, hfilled', hpayload', hbinding'⟩ :=
      ih middle fun e he => h e (List.mem_cons_of_mem _ he)
    refine ⟨rows', first ++ rest, ?_, fun slot => ?_, hpayload'.trans hpayload,
      hbinding'.trans hbinding⟩
    · rw [resolveEntries, hfirst, Option.bind_some]
      dsimp only
      rw [hrest]
      rfl
    · rw [hfilled' slot, hfilled slot]
      simp only [List.map_cons, List.mem_cons, List.not_mem_nil, or_false]
      by_cases heq : slot = withSender r.sender entry
      · simp only [heq, true_or, if_true, held_held, ite_self]
      · simp only [heq, false_or, if_false]

end

/-! ## Two sightings of one transaction -/

theorem amount_eq {outputs : List RpcTransactionOutput} {a : AddressPayload}
    (h : (resolvePrimaryReceiver env outputs (some a)).2 = (resolvePrimaryReceiver env outputs none).2) :
    resolvePrimaryReceiver env outputs (some a) = resolvePrimaryReceiver env outputs none := by
  unfold resolvePrimaryReceiver at h ⊢
  cases hstandard : standardOutputs env outputs with
  | nil => rfl
  | cons first rest =>
    simp only [hstandard, Option.bind_some, Option.bind_none, Option.getD_none] at h ⊢
    cases hfind : (first :: rest).find? fun output => decide (output.2 ≠ a) with
    | none => rfl
    | some output =>
      rw [hfind, Option.getD_some] at h
      have hne : output.2 ≠ a := by simpa using List.find?_some hfind
      have hfirst : (first :: rest).find? (fun output => decide (output.2 ≠ a)) = some first :=
        List.find?_cons_of_pos (by simpa [← h] using hne)
      rw [hfind] at hfirst
      obtain rfl := Option.some.inj hfirst
      rfl

theorem slotsOf_withSender (s : Sighting) (a : AddressPayload) (op : SealedOperation) :
    (slotsOf s op).map (withSender a) = slotsOf { s with sender := some a } op := by
  cases op with
  | groupControlV1 gc =>
    simp only [slotsOf, List.map_append, List.map_cons, List.map_nil, Option.getD_some]
    cases gc.recipientPubkey.bind fun key =>
      (decodeFixedHex 32 key).map AddressPayload.fromXonlyPubkey <;> rfl
  | contextualMessageV1 cm =>
    simp only [slotsOf, List.map_cons, Option.getD_some]
    cases cm.inboxTag.bind (decodeFixedHex 16) <;> rfl
  | groupMessageV1 gm =>
    simp only [slotsOf]
    cases decodeFixedHex 32 gm.blindedGroupId <;> rfl
  | _ => rfl

/-- Where a key has no receiver, the receiver makes no difference. -/
theorem slotsOf_receiver (s : Sighting) {op : SealedOperation} (amount : ℕ)
    (receiver : AddressPayload) (h : hasReceiver (opKind op) = false) :
    slotsOf { s with amount := amount, receiver := receiver } op = slotsOf s op ∧
      payloadOf { s with amount := amount, receiver := receiver } op = payloadOf s op := by
  cases op <;> first | exact ⟨rfl, rfl⟩ | cases h

section
variable {header : RpcHeader} {tx : RpcTransaction} {op : SealedOperation} {a : AddressPayload}

/-- What a sighting with the sender writes, in terms of the one without. -/
theorem sighting_slots (header : RpcHeader)
    (h : hasReceiver (opKind op) = true → (resolvePrimaryReceiver env tx.outputs (some a)).2 =
      (resolvePrimaryReceiver env tx.outputs none).2) :
    slotsOf (sightingOf env header tx (some a)) op =
        (slotsOf (sightingOf env header tx none) op).map (withSender a) ∧
      payloadOf (sightingOf env header tx (some a)) op =
        payloadOf (sightingOf env header tx none) op := by
  rw [slotsOf_withSender]
  cases hkind : hasReceiver (opKind op) with
  | true =>
    have heq := amount_eq (h hkind)
    have hsame : sightingOf env header tx (some a) =
        { sightingOf env header tx none with sender := some a } := by
      simp only [sightingOf, heq]
    rw [hsame]
    refine ⟨rfl, ?_⟩
    cases op <;> rfl
  | false =>
    obtain ⟨hslots, hpayload⟩ := slotsOf_receiver { sightingOf env header tx none with
      sender := some a } (resolvePrimaryReceiver env tx.outputs (some a)).1
      (resolvePrimaryReceiver env tx.outputs (some a)).2 hkind
    refine ⟨hslots, hpayload.trans ?_⟩
    cases op <;> rfl

/-- An answer that fills the rows of a sighting leaves what the sighting with the sender leaves. -/
theorem filled_same {s s' : Sighting} {kind : PushEventKind} {payload : ℕ × Bytes}
    {slots : List Slot} {rows rows' : Rows} {w w' : Written} (hs : s.sender = none)
    (hs' : s'.sender = some a) (hid : s'.txId = s.txId) (hw : Writes s kind payload slots rows w)
    (hw' : Writes s' kind payload (slots.map (withSender a)) rows w')
    (hfilled : Filled w.rows rows' (slots.map (withSender a)) a)
    (hpayload : payloadAt rows' = payloadAt w.rows) :
    (∀ slot, senderAt rows' slot = senderAt w'.rows slot) ∧
      ∀ txId kind, payloadAt rows' txId kind = payloadAt w'.rows txId kind := by
  have hrows := hw.rows
  have hrows' := hw'.rows
  rw [hs, if_pos rfl, Option.getD_none] at hrows
  rw [hs', if_neg (by simp), Option.getD_some] at hrows'
  refine ⟨fun slot => ?_, fun txId other => ?_⟩
  · rw [hfilled slot, hrows' slot, hrows slot]
    by_cases hin : slot ∈ slots.map (withSender a)
    · rw [if_pos hin, if_pos hin]
      split
      · rw [held_default_held]
      · rfl
    · rw [if_neg hin, if_neg hin, if_neg]
      intro hslot
      obtain ⟨hslot, hkey⟩ := List.mem_filter.mp hslot
      exact hin (List.mem_map.mpr ⟨slot, hslot, withSender_eq (of_decide_eq_true hkey)⟩)
  · rw [hpayload, hw.payload, hw'.payload, hid]

/-! ## Records -/

theorem recordsOf_put {p : Acceptance} {key : AcceptanceKey} {v : AcceptanceValue}
    (h : ∀ k ∈ keys p, k.txId = key.txId → k = key) :
    recordsOf (put p key v) key.txId = [(key, v)] := by
  unfold recordsOf put
  rw [List.filter_cons_of_pos (by simp), List.filter_filter, List.filter_eq_nil_iff.mpr]
  intro record hrecord
  have := h record.1 (List.mem_map_of_mem hrecord)
  simp only [Bool.and_eq_true, decide_eq_true_eq, not_and]
  exact fun hid hne => hne (this hid)

/-- The only key of a transaction is found after its sighting. -/
theorem keyByTxId_insert {p : Acceptance} {key : AcceptanceKey} {entries : List InsertionEntry}
    (h : ∀ k ∈ keys p, k.txId = key.txId → k = key) :
    keyByTxId (insertAcceptance p key entries) key.txId = .ok (some key) := by
  obtain ⟨v, hv⟩ := insertAcceptance_put p key entries
  rw [hv, keyByTxId, onlyRecord, recordsOf_put h]
  rfl

theorem indexTransaction_of {sender : Option AddressPayload} {wtx : Database} {w : Written}
    (h : Handled env (sightingOf env header tx sender) op wtx.rows w) :
    ∃ wtx', indexTransaction env header tx op sender wtx = .ok wtx' ∧ wtx'.rows = w.rows ∧
      wtx'.acceptance = insertAcceptance wtx.acceptance
        ⟨tx.txId, (resolvePrimaryReceiver env tx.outputs sender).2⟩ w.entries := by
  have hwritten : (if storeContent env (sightingOf env header tx sender) op then
      handleOperation (sightingOf env header tx sender) op wtx.rows
      else some ⟨wtx.rows, [], []⟩) = some w := by
    unfold Handled at h
    split at h
    · next hstore => rw [if_pos hstore, h]
    · next hstore => rw [if_neg hstore, h]
  unfold indexTransaction
  dsimp only
  rw [show (⟨header, tx.txId, (resolvePrimaryReceiver env tx.outputs sender).1,
    (resolvePrimaryReceiver env tx.outputs sender).2, sender⟩ : Sighting) =
      sightingOf env header tx sender from rfl, hwritten]
  exact ⟨_, rfl, rfl, rfl⟩

theorem handled_total (s : Sighting) (rows : Rows) (h : op.Decodes) : ∃ w, Handled env s op rows w := by
  unfold Handled
  split
  · exact Option.isSome_iff_exists.mp (handleOperation_isSome s rows h)
  · exact ⟨_, rfl⟩

end

/-! ## The sender is told after the sighting -/

section
variable {header : RpcHeader} {tx : RpcTransaction} {op : SealedOperation} {a : AddressPayload}
  {address : ScriptPublicKey} {daa : ℕ} {db : Database} {rows : Rows} {w : Written}

/-- A message that does not pass leaves the bindings as they are. -/
theorem refused_bindings {bindings : Partition Bytes Bytes} {id pub : Bytes}
    (h : (admitGroupMessage bindings a id pub).1 = false) (g : Bytes) :
    get (admitGroupMessage bindings a id pub).2 g = get bindings g := by
  unfold admitGroupMessage at h ⊢
  split at h
  · next hmatches => rw [if_pos hmatches]
  · next hmatches =>
    rw [if_neg hmatches]
    unfold checkOrBind at h ⊢
    split at h
    · cases h
    · next old hold =>
      dsimp only
      rw [get_put]
      split
      · next heq => rw [heq, hold]
      · rfl

/-- The answer makes the check of the sighting with the sender, and drops what does not pass. -/
theorem group_answered (a : AddressPayload) (daa : ℕ) {s : Sighting} {gm : SealedGroupMessage}
    {id pub : Bytes} (hs : s.sender = none)
    (hparsed : parseSealedOperation tx.payload = some (.groupMessageV1 gm))
    (hid : decodeFixedHex 32 gm.blindedGroupId = some id)
    (hpub : decodeFixedHex 32 gm.senderPub = some pub)
    (hw : w = insertGroupMessage s gm.sealedHex id pub rows) : ∃ rows' pushes,
    resolveEntries ⟨a, daa, w.rows⟩ w.entries w.rows = some (rows', pushes) ∧
      rows'.groupSenderBinding = (admitGroupMessage rows.groupSenderBinding a id pub).2 ∧
      ((admitGroupMessage rows.groupSenderBinding a id pub).1 = true →
        Filled w.rows rows' ((slotsOf s (.groupMessageV1 gm)).map (withSender a)) a ∧
          payloadAt rows' = payloadAt w.rows) ∧
      ((admitGroupMessage rows.groupSenderBinding a id pub).1 = false →
        (∀ slot, senderAt rows' slot =
          if slot ∈ slotsOf s (.groupMessageV1 gm) then none else senderAt rows slot) ∧
        ∀ txId kind, payloadAt rows' txId kind =
          if kind = .groupMessage ∧ txId = s.txId then none else payloadAt rows txId kind) := by
  let key : GroupMessageKeyByBlindedGroupId := ⟨id, s.header.timestamp, s.header.hash, 1, s.txId⟩
  have hm : Names [⟨s.header, [{ tx with txId := s.txId }]⟩] key ⟨id, pub, gm.sealedHex⟩ := by
    refine ⟨⟨{ tx with txId := s.txId }, ?_, rfl, gm, hparsed, hid, hpub, rfl⟩, rfl⟩
    simp [sealedOf, isSealed, hparsed]
  have hentries : w.entries = [.groupMessageByBlindedGroupId key] := by
    simp [hw, insertGroupMessage, hs, key]
  have hbinding : w.rows.groupSenderBinding = rows.groupSenderBinding := by
    simp [hw, insertGroupMessage, hs]
  have hstored : get w.rows.txIdToGroupMessage key.txId = some gm.sealedHex := by
    simp [hw, insertGroupMessage, hs, get_put, key]
  have hslots : slotsOf s (.groupMessageV1 gm) = [.groupMessageByBlindedGroupId key] := by
    simp [slotsOf, hid, key]
  have heq := resolveGroupMessage_eq (r := ⟨a, daa, w.rows⟩) hm hstored w.rows
  dsimp only at heq
  rw [hbinding] at heq
  have hone : ∀ rows' pushes, resolveGroupMessage ⟨a, daa, w.rows⟩ key w.rows =
      some (rows', pushes) →
        resolveEntries ⟨a, daa, w.rows⟩ w.entries w.rows = some (rows', pushes ++ []) := by
    intro rows' pushes h
    rw [hentries, resolveEntries, resolveEntry, h]
    rfl
  cases hpasses : (admitGroupMessage rows.groupSenderBinding a id pub).1 with
  | true =>
    refine ⟨_, _, hone _ _ (heq.trans (congrArg some (if_pos hpasses))), rfl,
      fun _ => ⟨fun slot => ?_, rfl⟩, fun h => absurd h (by simp)⟩
    rw [hslots]
    cases slot <;> simp [senderAt, get_fill, withSender]
  | false =>
    refine ⟨_, _, hone _ _ (heq.trans (congrArg some (if_neg (by simp [hpasses])))), rfl,
      fun h => absurd h (by simp), fun _ => ⟨fun slot => ?_, fun txId kind => ?_⟩⟩
    · rw [hslots, hw]
      cases slot <;>
        simp [dropGroupMessage, insertGroupMessage, hs, senderAt, get_erase, get_fill, key]
      split <;> simp_all
    · rw [hw]
      cases kind <;>
        simp [dropGroupMessage, insertGroupMessage, hs, payloadAt, get_erase, get_put, key]
      split <;> simp_all

/-- What is decided without the sender is decided with it too, and no earlier sighting is in the
way. -/
structure Alike (env : Env) (header : RpcHeader) (tx : RpcTransaction) (op : SealedOperation)
    (a : AddressPayload) (db : Database) : Prop where
  stored : admits db.rows a op = true → storeContent env (sightingOf env header tx none) op =
    storeContent env (sightingOf env header tx (some a)) op
  receiver : storeContent env (sightingOf env header tx none) op = true →
    hasReceiver (opKind op) = true → (resolvePrimaryReceiver env tx.outputs (some a)).2 =
      (resolvePrimaryReceiver env tx.outputs none).2
  record : ∀ key ∈ keys db.acceptance, key.txId = tx.txId →
    key.receiver = (resolvePrimaryReceiver env tx.outputs none).2 ∧ entriesOf db.acceptance key = []
  refused : admits db.rows a op = false →
    storeContent env (sightingOf env header tx none) op = true →
      (∀ slot ∈ slotsOf (sightingOf env header tx none) op, senderAt db.rows slot = none) ∧
        payloadAt db.rows tx.txId (opKind op) = none

theorem admits_group {gm : SealedGroupMessage} {id pub : Bytes}
    (hid : decodeFixedHex 32 gm.blindedGroupId = some id)
    (hpub : decodeFixedHex 32 gm.senderPub = some pub) :
    admits rows a (.groupMessageV1 gm) = (admitGroupMessage rows.groupSenderBinding a id pub).1 := by
  simp [admits, hid, hpub]

/-- A group message that is seen with its sender: the check decides on the binding. -/
theorem group_known {s : Sighting} {gm : SealedGroupMessage} {id pub : Bytes}
    (hs : s.sender = some a) :
    (insertGroupMessage s gm.sealedHex id pub rows).rows.groupSenderBinding =
      (admitGroupMessage rows.groupSenderBinding a id pub).2 := by
  simp only [insertGroupMessage, hs]
  split <;> rfl

/-- The rows after the sighting and its answer. -/
theorem alike_rows (daa : ℕ) (hparsed : parseSealedOperation tx.payload = some op)
    (h : Alike env header tx op a db) {w' : Written}
    (hw : Handled env (sightingOf env header tx none) op db.rows w)
    (hw' : Handled env (sightingOf env header tx (some a)) op db.rows w') : ∃ rows' pushes,
    resolveEntries ⟨a, daa, w.rows⟩ w.entries w.rows = some (rows', pushes) ∧
      SameRows rows' w'.rows := by
  have hnone : (sightingOf env header tx none).sender = none := rfl
  have hsome : (sightingOf env header tx (some a)).sender = some a := rfl
  have htxId : (sightingOf env header tx (some a)).txId = (sightingOf env header tx none).txId := rfl
  unfold Handled at hw hw'
  by_cases hadmits : admits db.rows a op = true
  · rw [← h.stored hadmits] at hw'
    by_cases hstore : storeContent env (sightingOf env header tx none) op = true
    · rw [if_pos hstore] at hw hw'
      have hwrites := handleOperation_writes hw (by simp [sightingOf])
      have hwrites' := handleOperation_writes hw' (by simpa [sightingOf] using hadmits)
      obtain ⟨hslots, hpayload⟩ := sighting_slots header (h.receiver hstore)
      rw [hslots, hpayload] at hwrites'
      by_cases hkind : opKind op = .groupMessage
      · cases op with
        | groupMessageV1 gm =>
          obtain ⟨id, pub, hid, hpub, rfl⟩ := handleGroupMessage_some hw
          obtain ⟨id', pub', hid', hpub', rfl⟩ := handleGroupMessage_some hw'
          obtain rfl := Option.some.inj (hid.symm.trans hid')
          obtain rfl := Option.some.inj (hpub.symm.trans hpub')
          obtain ⟨rows', pushes, hresolve, hbinding, hpasses, -⟩ :=
            group_answered a daa hnone hparsed hid hpub rfl
          rw [admits_group hid hpub] at hadmits
          obtain ⟨hfilled, hpayloads⟩ := hpasses hadmits
          obtain ⟨hsenders, hpayloads⟩ := filled_same hnone hsome htxId hwrites hwrites'
            hfilled hpayloads
          refine ⟨rows', pushes, hresolve, hsenders, hpayloads, fun g => ?_⟩
          rw [hbinding, group_known rfl]
        | _ => cases hkind
      · have hentries : w.entries = slotsOf (sightingOf env header tx none) op := by
          rw [hwrites.entries]
          exact if_pos rfl
        obtain ⟨rows', pushes, hresolve, hfilled, hpayloads, hbinding⟩ :=
          resolveEntries_filled ⟨a, daa, w.rows⟩ w.rows fun entry hentry =>
            (slotsOf_spec hentry).1.trans_ne hkind
        rw [← hentries] at hresolve
        obtain ⟨hsenders, hpayloads⟩ := filled_same hnone hsome htxId hwrites hwrites'
            hfilled hpayloads
        refine ⟨rows', pushes, hresolve, hsenders, hpayloads, fun g => ?_⟩
        rw [hbinding, (handleOperation_other hw hkind).2.2, (handleOperation_other hw' hkind).2.2]
    · rw [if_neg hstore] at hw hw'
      subst hw hw'
      exact ⟨db.rows, [], rfl, fun _ => rfl, fun _ _ => rfl, fun _ => rfl⟩
  · have hrefused : admits db.rows a op = false := by simpa using hadmits
    cases op with
    | groupMessageV1 gm =>
      obtain ⟨id, hid⟩ := Option.isSome_iff_exists.mp (parse_decodes hparsed).1
      obtain ⟨pub, hpub⟩ := Option.isSome_iff_exists.mp (parse_decodes hparsed).2
      have hcheck := hrefused
      rw [admits_group hid hpub] at hcheck
      have hknown : SameRows db.rows w'.rows := by
        split at hw'
        · obtain ⟨-, hsenders, hpayloads⟩ := handleOperation_rejects hw' rfl hrefused
          refine ⟨fun slot => by rw [hsenders], fun txId kind => by rw [hpayloads], fun g => ?_⟩
          obtain ⟨id', pub', hid', hpub', rfl⟩ := handleGroupMessage_some hw'
          obtain rfl := Option.some.inj (hid.symm.trans hid')
          obtain rfl := Option.some.inj (hpub.symm.trans hpub')
          rw [group_known rfl, refused_bindings hcheck]
        · subst hw'
          exact ⟨fun _ => rfl, fun _ _ => rfl, fun _ => rfl⟩
      split at hw
      · next hstore =>
        obtain ⟨hslots, hpayload⟩ := h.refused hrefused hstore
        obtain ⟨id', pub', hid', hpub', rfl⟩ := handleGroupMessage_some hw
        obtain rfl := Option.some.inj (hid.symm.trans hid')
        obtain rfl := Option.some.inj (hpub.symm.trans hpub')
        obtain ⟨rows', pushes, hresolve, hbinding, -, hdropped⟩ :=
          group_answered a daa hnone hparsed hid hpub rfl
        obtain ⟨hsenders, hpayloads⟩ := hdropped hcheck
        refine ⟨rows', pushes, hresolve, fun slot => ?_, fun txId kind => ?_, fun g => ?_⟩
        · rw [hsenders, ← hknown.senders]
          split
          · next hslot => exact (hslots slot hslot).symm
          · rfl
        · rw [hpayloads, ← hknown.payloads]
          split
          · next hthis =>
            obtain ⟨rfl, rfl⟩ := hthis
            exact hpayload.symm
          · rfl
        · rw [hbinding, refused_bindings hcheck]
          exact hknown.bindings g
      · subst hw
        exact ⟨db.rows, [], rfl, hknown⟩
    | _ => cases hrefused

/-- The answer for the only record of the transaction. -/
theorem answered_of (haddress : AddressPayload.tryFrom env address = some a)
    (hparsed : parseSealedOperation tx.payload = some op) (h : Alike env header tx op a db) :
    SameLater env header tx op address a daa db := by
  obtain ⟨w, hw⟩ := handled_total (sightingOf env header tx none) db.rows (parse_decodes hparsed)
  obtain ⟨w', hw'⟩ :=
    handled_total (sightingOf env header tx (some a)) db.rows (parse_decodes hparsed)
  obtain ⟨rows', pushes, hresolve, hsame⟩ := alike_rows daa hparsed h hw hw'
  obtain ⟨seen, hseen, hseenRows, hacceptance⟩ := indexTransaction_of hw
  obtain ⟨known, hknown, hknownRows, -⟩ := indexTransaction_of hw'
  have hkey : keyByTxId seen.acceptance tx.txId =
      .ok (some ⟨tx.txId, (resolvePrimaryReceiver env tx.outputs none).2⟩) := by
    rw [hacceptance]
    refine keyByTxId_insert fun k hk hid => ?_
    obtain ⟨txId, receiver⟩ := k
    obtain ⟨hreceiver, -⟩ := h.record _ hk hid
    exact congrArg₂ AcceptanceKey.mk hid hreceiver
  have hentries : entriesOf seen.acceptance
      ⟨tx.txId, (resolvePrimaryReceiver env tx.outputs none).2⟩ = w.entries := by
    rw [hacceptance, entriesOf_insertAcceptance, if_pos rfl]
    have hnone : entriesOf db.acceptance
        ⟨tx.txId, (resolvePrimaryReceiver env tx.outputs none).2⟩ = [] := by
      by_contra hne
      have hmem : (⟨tx.txId, (resolvePrimaryReceiver env tx.outputs none).2⟩ : AcceptanceKey) ∈
          keys db.acceptance := by
        rw [← get_isSome]
        by_contra hnone
        exact hne (by simp [entriesOf, Option.not_isSome_iff_eq_none.mp hnone])
      exact hne (h.record _ hmem rfl).2
    rw [hnone, List.nil_append]
  obtain ⟨answered, hanswered, hrows⟩ : ∃ answered,
      handleSenderAddress env address tx.txId daa seen = .ok answered ∧ answered.rows = rows' := by
    unfold handleSenderAddress
    simp only [haddress, hkey, Except.bind, hentries, hseenRows, hresolve]
    exact ⟨_, rfl, rfl⟩
  refine ⟨seen, answered, known, hseen, hanswered, hknown, ?_⟩
  rw [hrows, hknownRows]
  exact hsame

/-- Nothing is known of the transaction. -/
structure Fresh (tx : RpcTransaction) (db : Database) : Prop where
  senders : ∀ slot, txIdOf slot = tx.txId → senderAt db.rows slot = none
  payloads : ∀ kind, payloadAt db.rows tx.txId kind = none
  records : ∀ key ∈ keys db.acceptance, key.txId ≠ tx.txId

/-- On a state that is fresh the answer fills the rows of this sighting only. -/
theorem fresh_answered (haddress : AddressPayload.tryFrom env address = some a)
    (hfresh : Fresh tx db) {w' : Written}
    (hw : Handled env (sightingOf env header tx none) op db.rows w)
    (hw' : Handled env (sightingOf env header tx (some a)) op db.rows w')
    (h : SameLater env header tx op address a daa db) : ∃ rows' pushes,
    resolveEntries ⟨a, daa, w.rows⟩ w.entries w.rows = some (rows', pushes) ∧
      SameRows rows' w'.rows := by
  obtain ⟨seen, answered, known, hseen, hanswered, hknown, hsame⟩ := h
  obtain ⟨seen', hseen', hseenRows, hacceptance⟩ := indexTransaction_of hw
  obtain ⟨known', hknown', hknownRows, -⟩ := indexTransaction_of hw'
  obtain rfl := Except.ok.inj (hseen.symm.trans hseen')
  obtain rfl := Except.ok.inj (hknown.symm.trans hknown')
  obtain ⟨sender, key, rows', pushes, hsender, hkey, hresolve, rfl⟩ :=
    handleSenderAddress_ok hanswered
  obtain rfl := Option.some.inj (haddress.symm.trans hsender)
  have honly : keyByTxId seen.acceptance tx.txId =
      .ok (some ⟨tx.txId, (resolvePrimaryReceiver env tx.outputs none).2⟩) := by
    rw [hacceptance]
    exact keyByTxId_insert fun k hk hid => absurd hid (hfresh.records k hk)
  obtain rfl := Option.some.inj (Except.ok.inj (hkey.symm.trans honly))
  rw [hacceptance, entriesOf_insertAcceptance, if_pos rfl, hseenRows] at hresolve
  have hnone : entriesOf db.acceptance
      ⟨tx.txId, (resolvePrimaryReceiver env tx.outputs none).2⟩ = [] := by
    by_contra hne
    have hmem : (⟨tx.txId, (resolvePrimaryReceiver env tx.outputs none).2⟩ : AcceptanceKey) ∈
        keys db.acceptance := by
      rw [← get_isSome]
      by_contra hnone
      exact hne (by simp [entriesOf, Option.not_isSome_iff_eq_none.mp hnone])
    exact hfresh.records _ hmem rfl
  rw [hnone, List.nil_append] at hresolve
  exact ⟨rows', pushes, hresolve, hknownRows ▸ hsame⟩

/-- Without the sender everything is stored that passes the filter: the answer keeps the payload of
what it admits. -/
theorem fresh_rows (hfresh : Fresh tx db) (hparsed : parseSealedOperation tx.payload = some op)
    (hw : handleOperation (sightingOf env header tx none) op db.rows = some w)
    (hadmits : admits db.rows a op = true) {rows' : Rows} {pushes : List PushEvent}
    (hresolve : resolveEntries ⟨a, daa, w.rows⟩ w.entries w.rows = some (rows', pushes)) :
    (payloadAt rows' tx.txId (opKind op)).isSome ∧ ∀ slot, txIdOf slot = tx.txId →
      (senderAt rows' slot).isSome →
        slot ∈ (slotsOf (sightingOf env header tx none) op).map (withSender a) := by
  have hwrites := handleOperation_writes hw (by simp [sightingOf])
  have hrows' : Filled w.rows rows'
      ((slotsOf (sightingOf env header tx none) op).map (withSender a)) a ∧
        payloadAt rows' = payloadAt w.rows := by
    by_cases hkind : opKind op = .groupMessage
    · cases op with
      | groupMessageV1 gm =>
        obtain ⟨id, pub, hid, hpub, rfl⟩ := handleGroupMessage_some hw
        obtain ⟨other, otherPushes, hother, -, hpasses, -⟩ := group_answered a daa
          (show (sightingOf env header tx none).sender = none from rfl) hparsed hid hpub rfl
        obtain ⟨rfl, -⟩ := Prod.ext_iff.mp (Option.some.inj (hresolve.symm.trans hother))
        rw [admits_group hid hpub] at hadmits
        exact hpasses hadmits
      | _ => cases hkind
    · have hentries : w.entries = slotsOf (sightingOf env header tx none) op := by
        rw [hwrites.entries]
        exact if_pos rfl
      obtain ⟨other, otherPushes, hother, hfilled, hpayloads, -⟩ :=
        resolveEntries_filled ⟨a, daa, w.rows⟩ w.rows fun entry hentry =>
          (slotsOf_spec hentry).1.trans_ne hkind
      rw [← hentries] at hother
      obtain ⟨rfl, -⟩ := Prod.ext_iff.mp (Option.some.inj (hresolve.symm.trans hother))
      exact ⟨hfilled, hpayloads⟩
  obtain ⟨hfilled, hpayloads⟩ := hrows'
  refine ⟨?_, fun slot hid hsome => ?_⟩
  · rw [hpayloads, hwrites.payload, if_pos ⟨rfl, rfl⟩]
    rfl
  · by_contra hnot
    have hrow := hwrites.rows slot
    rw [show (sightingOf env header tx none).sender = none from rfl, if_pos rfl, if_neg,
      hfresh.senders slot hid] at hrow
    · rw [hfilled slot, if_neg hnot, hrow] at hsome
      cases hsome
    · intro hslot
      obtain ⟨hslot, hkey⟩ := List.mem_filter.mp hslot
      exact hnot (List.mem_map.mpr ⟨slot, hslot, withSender_eq (of_decide_eq_true hkey)⟩)

/-- On a state that knows nothing of the transaction, the rows are the same only so. -/
theorem alike_of (haddress : AddressPayload.tryFrom env address = some a)
    (hfresh : Fresh tx db) (hparsed : parseSealedOperation tx.payload = some op)
    (h : SameLater env header tx op address a daa db) : Alike env header tx op a db := by
  obtain ⟨w, hw⟩ := handled_total (sightingOf env header tx none) db.rows (parse_decodes hparsed)
  obtain ⟨w', hw'⟩ :=
    handled_total (sightingOf env header tx (some a)) db.rows (parse_decodes hparsed)
  obtain ⟨rows', pushes, hresolve, hsame⟩ := fresh_answered haddress hfresh hw hw' h
  have hstored : admits db.rows a op = true →
      storeContent env (sightingOf env header tx none) op =
        storeContent env (sightingOf env header tx (some a)) op := by
    intro hadmits
    unfold Handled at hw hw'
    split at hw <;> split at hw'
    · next hstore hstore' => rw [hstore, hstore']
    · subst hw'
      have hsome := (fresh_rows hfresh hparsed hw hadmits hresolve).1
      rw [hsame.payloads, hfresh.payloads] at hsome
      cases hsome
    · subst hw
      obtain ⟨rfl, -⟩ := Prod.ext_iff.mp (Option.some.inj hresolve)
      have hwrites := handleOperation_writes hw' (by simpa [sightingOf] using hadmits)
      have hpayload := hsame.payloads tx.txId (opKind op)
      rw [hwrites.payload, if_pos ⟨rfl, rfl⟩, hfresh.payloads] at hpayload
      cases hpayload
    · next hstore hstore' =>
      rw [Bool.eq_false_of_not_eq_true hstore, Bool.eq_false_of_not_eq_true hstore']
  refine ⟨hstored, fun hstore hreceiver => ?_, fun key hkey hid =>
    absurd hid (hfresh.records key hkey), fun _ _ => ⟨fun slot hslot => hfresh.senders slot
      (slotsOf_spec hslot).2.1, hfresh.payloads _⟩⟩
  have hadmits : admits db.rows a op = true := by
    cases op <;> first | rfl | cases hreceiver
  have hstore' := hstored hadmits ▸ hstore
  unfold Handled at hw hw'
  rw [if_pos hstore] at hw
  rw [if_pos hstore'] at hw'
  have hwrites := handleOperation_writes hw' (by simpa [sightingOf] using hadmits)
  have hin : ∀ slot ∈ slotsOf (sightingOf env header tx (some a)) op,
      slot ∈ (slotsOf (sightingOf env header tx none) op).map (withSender a) := by
    intro slot hslot
    refine (fresh_rows hfresh hparsed hw hadmits hresolve).2 slot (slotsOf_spec hslot).2.1 ?_
    rw [hsame.senders, hwrites.rows, if_pos]
    · rfl
    · exact hslot
  cases op with
  | sealedMessageOrSealedHandshakeVNone sealedHex =>
    simpa [slotsOf, sightingOf, withSender] using hin _ (List.mem_cons_self ..)
  | sealedHandshakeV2 sealedHex =>
    simpa [slotsOf, sightingOf, withSender] using hin _ (List.mem_cons_self ..)
  | contextualMessageV1 cm =>
    have hmem := hin _ (List.mem_cons_self ..)
    simp only [slotsOf, List.map_cons, List.mem_cons] at hmem
    rcases hmem with heq | hmem
    · simpa [withSender, sightingOf] using heq
    · cases htag : cm.inboxTag.bind (decodeFixedHex 16) <;> simp [htag, withSender] at hmem
  | paymentV1 sealedHex =>
    simpa [slotsOf, sightingOf, withSender] using hin _ (List.mem_cons_self ..)
  | _ => cases hreceiver

end

/-! ### Change before the payment -/

def sampleHeader : RpcHeader := ⟨sampleId 1, 1, 1, 1⟩

end KaChatIndexer.ChatDeferred

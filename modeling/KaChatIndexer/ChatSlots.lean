import KaChatIndexer.ChatBlocks

/-!
# Slots

Each row of the ten message indexes has its place, named as an entry names it, and there a sender
that is known or not. Seen so, a handler writes one sender to all slots of its sighting, and the
node's answer writes the sender to the slots that the entries left.
-/
namespace KaChatIndexer.ChatSlots
open ByteStrings ChatPayload ChatRows ChatBlocks

abbrev Slot := InsertionEntry

/-! ## Places -/

def kindOf : Slot → PushEventKind
  | .handshakeByReceiver _ | .handshakeBySender _ => .handshake
  | .contextualMessageBySender _ | .contextualMessageByInbox _ => .contextual
  | .paymentByReceiver _ | .paymentBySender _ => .payment
  | .selfStashByOwner _ => .selfStash
  | .groupMessageByBlindedGroupId _ => .groupMessage
  | .groupControlByRecipient _ | .groupControlBySender _ => .groupControl

def txIdOf : Slot → TxId
  | .handshakeByReceiver key => key.txId
  | .handshakeBySender key => key.txId
  | .contextualMessageBySender key => key.txId
  | .contextualMessageByInbox key => key.txId
  | .paymentByReceiver key => key.txId
  | .paymentBySender key => key.txId
  | .selfStashByOwner key => key.txId
  | .groupMessageByBlindedGroupId key => key.txId
  | .groupControlByRecipient key => key.txId
  | .groupControlBySender key => key.txId

/-- The sender of a key that has one. -/
def keySender : Slot → Option AddressPayload
  | .handshakeBySender key => some key.sender
  | .contextualMessageBySender key => some key.sender
  | .paymentBySender key => some key.sender
  | .selfStashByOwner key => some key.owner
  | .groupControlBySender key => some key.sender
  | _ => none

/-- The receiver that an endpoint sends with the row. -/
def receiverOf : Slot → Option AddressPayload
  | .handshakeByReceiver key => some key.receiver
  | .handshakeBySender key => some key.receiver
  | .paymentByReceiver key => some key.receiver
  | .paymentBySender key => some key.receiver
  | _ => none

/-- The slot for a sender: a key that has none stays. -/
def withSender (sender : AddressPayload) : Slot → Slot
  | .handshakeBySender key => .handshakeBySender { key with sender := sender }
  | .contextualMessageBySender key => .contextualMessageBySender { key with sender := sender }
  | .paymentBySender key => .paymentBySender { key with sender := sender }
  | .selfStashByOwner key => .selfStashByOwner { key with owner := sender }
  | .groupControlBySender key => .groupControlBySender { key with sender := sender }
  | slot => slot

@[simp] theorem kindOf_withSender (a : AddressPayload) (slot : Slot) :
    kindOf (withSender a slot) = kindOf slot := by cases slot <;> rfl

@[simp] theorem txIdOf_withSender (a : AddressPayload) (slot : Slot) :
    txIdOf (withSender a slot) = txIdOf slot := by cases slot <;> rfl

@[simp] theorem receiverOf_withSender (a : AddressPayload) (slot : Slot) :
    receiverOf (withSender a slot) = receiverOf slot := by cases slot <;> rfl

theorem withSender_eq {a : AddressPayload} {slot : Slot} (h : keySender slot = none) :
    withSender a slot = slot := by
  cases slot <;> first | rfl | cases h

/-- The sender of the row at a slot, `default` when it is not known; `none` without a row. -/
def senderAt (rows : Rows) : Slot → Option AddressPayload
  | .handshakeByReceiver key => get rows.handshakeByReceiver key
  | .handshakeBySender key => (get rows.handshakeBySender key).map fun _ => key.sender
  | .contextualMessageBySender key => (get rows.contextualMessageBySender key).map fun _ => key.sender
  | .contextualMessageByInbox key => get rows.contextualMessageByInbox key
  | .paymentByReceiver key => get rows.paymentByReceiver key
  | .paymentBySender key => (get rows.paymentBySender key).map fun _ => key.sender
  | .selfStashByOwner key => (get rows.selfStashByOwner key).map fun _ => key.owner
  | .groupMessageByBlindedGroupId key => get rows.groupMessageByBlindedGroupId key
  | .groupControlByRecipient key => get rows.groupControlByRecipient key
  | .groupControlBySender key => (get rows.groupControlBySender key).map fun _ => key.sender

/-- The payload of a transaction, with the amount of a payment. -/
def payloadAt (rows : Rows) (txId : TxId) : PushEventKind → Option (ℕ × Bytes)
  | .handshake => (get rows.txIdToHandshake txId).map fun payload => (0, payload)
  | .contextual => (get rows.txIdToContextualMessage txId).map fun payload => (0, payload)
  | .payment => get rows.txIdToPayment txId
  | .selfStash => (get rows.txIdToSelfStash txId).map fun payload => (0, payload)
  | .groupMessage => (get rows.txIdToGroupMessage txId).map fun payload => (0, payload)
  | .groupControl => (get rows.txIdToGroupControl txId).map fun payload => (0, payload)

/-! ## Writes -/

/-- A sender that is known stays. -/
def held (old : Option AddressPayload) (sender : AddressPayload) : AddressPayload :=
  if old.getD default ≠ default then old.getD default else sender

@[simp] theorem held_none (sender : AddressPayload) : held none sender = sender := by
  simp [held]

@[simp] theorem held_self (sender : AddressPayload) : held (some sender) sender = sender := by
  simp [held]

theorem held_default (old : Option AddressPayload) : held old default = old.getD default := by
  unfold held
  split
  · rfl
  · next h => exact (not_not.mp h).symm

theorem get_fill {κ : Type} [DecidableEq κ] (p : Partition κ AddressPayload) (k : κ)
    (sender : Option AddressPayload) (k' : κ) :
    get (fill p k sender) k' = if k' = k then some (held (get p k') (sender.getD default))
      else get p k' := by
  unfold fill
  by_cases hk : k' = k
  · subst hk
    cases hget : get p k' with
    | none => simp [get_put]
    | some old =>
      by_cases hold : old = default
      · simp [get_put, held, hold]
      · simp [get_put, held, hold]
  · cases get p k with
    | none => simp [get_put, hk]
    | some old =>
      by_cases hold : old = default
      · simp [get_put, hk, hold]
      · simp [get_put, hk, hold]

theorem get_put_key {κ : Type} [DecidableEq κ] (p : Partition κ Unit) (k k' : κ)
    (sender : κ → AddressPayload) :
    (get (put p k ()) k').map (fun _ => sender k') =
      if k' = k then some (held ((get p k').map fun _ => sender k') (sender k))
      else (get p k').map fun _ => sender k' := by
  rw [get_put]
  by_cases hk : k' = k
  · subst hk
    cases get p k' <;> simp
  · simp [hk]

theorem get_put_map {κ ν μ : Type} [DecidableEq κ] (p : Partition κ ν) (k k' : κ) (v : ν)
    (f : ν → μ) : (get (put p k v) k').map f = if k' = k then some (f v) else (get p k').map f := by
  rw [get_put, apply_ite (Option.map f), Option.map_some]

theorem get_erase {κ ν : Type} [DecidableEq κ] (p : Partition κ ν) (k k' : κ) :
    get (erase p k) k' = if k' = k then none else get p k' := by
  by_cases h : k' = k
  · rw [if_pos h, h]
    refine Option.not_isSome_iff_eq_none.mp fun hsome => ?_
    obtain ⟨entry, hentry, hkey⟩ := List.mem_map.mp (get_isSome.mp hsome)
    exact of_decide_eq_true (List.mem_filter.mp hentry).2 hkey
  · rw [if_neg h]
    exact lookup_filter h

/-- The rows of the slots have the sender, unless they have another one; the rest is unchanged. -/
def Filled (rows rows' : Rows) (slots : List Slot) (sender : AddressPayload) : Prop :=
  ∀ slot, senderAt rows' slot =
    if slot ∈ slots then some (held (senderAt rows slot) sender) else senderAt rows slot

/-- The payload of one transaction is there; the rest is unchanged. -/
def PayloadPut (rows rows' : Rows) (kind : PushEventKind) (txId : TxId) (payload : ℕ × Bytes) :
    Prop :=
  ∀ kind' txId', payloadAt rows' txId' kind' =
    if kind' = kind ∧ txId' = txId then some payload else payloadAt rows txId' kind'

/-! ## Sightings -/

def opKind : SealedOperation → PushEventKind
  | .sealedMessageOrSealedHandshakeVNone _ | .sealedHandshakeV2 _ => .handshake
  | .contextualMessageV1 _ => .contextual
  | .paymentV1 _ => .payment
  | .selfStashV1 _ => .selfStash
  | .groupMessageV1 _ => .groupMessage
  | .groupControlV1 _ => .groupControl

def payloadOf (s : Sighting) : SealedOperation → ℕ × Bytes
  | .sealedMessageOrSealedHandshakeVNone sealedHex => (0, sealedHex)
  | .sealedHandshakeV2 sealedHex => (0, sealedHex)
  | .contextualMessageV1 cm => (0, cm.sealedHex)
  | .paymentV1 sealedHex => (s.amount, sealedHex)
  | .selfStashV1 stash => (0, stash.sealedHex)
  | .groupMessageV1 gm => (0, gm.sealedHex)
  | .groupControlV1 gc => (0, gc.encryptedPayload)

/-- The slots of a sighting, in the order of its entries. -/
def slotsOf (s : Sighting) : SealedOperation → List Slot
  | .sealedMessageOrSealedHandshakeVNone _ =>
    [.handshakeByReceiver ⟨s.receiver, s.header.timestamp, s.header.hash, 0, s.txId⟩,
      .handshakeBySender ⟨s.sender.getD default, s.header.timestamp, s.header.hash, s.receiver, 0,
        s.txId⟩]
  | .sealedHandshakeV2 _ =>
    [.handshakeBySender ⟨s.sender.getD default, s.header.timestamp, s.header.hash, s.receiver, 2,
        s.txId⟩,
      .handshakeByReceiver ⟨s.receiver, s.header.timestamp, s.header.hash, 2, s.txId⟩]
  | .contextualMessageV1 cm =>
    .contextualMessageBySender ⟨s.sender.getD default, padded 16 cm.aliasBytes, s.header.timestamp,
        s.header.hash, s.receiver, 1, s.txId⟩ ::
      ((cm.inboxTag.bind (decodeFixedHex 16)).map fun tag =>
        .contextualMessageByInbox ⟨tag, s.header.timestamp, s.txId⟩).toList
  | .paymentV1 _ =>
    [.paymentByReceiver ⟨s.receiver, s.header.timestamp, s.header.hash, 0, s.txId⟩,
      .paymentBySender ⟨s.sender.getD default, s.header.timestamp, s.header.hash, s.receiver, 0,
        s.txId⟩]
  | .selfStashV1 stash =>
    [.selfStashByOwner ⟨s.sender.getD default, padded 255 (stash.key.getD []), s.header.timestamp,
      s.header.hash, 1, s.txId⟩]
  | .groupMessageV1 gm =>
    ((decodeFixedHex 32 gm.blindedGroupId).map fun id =>
      .groupMessageByBlindedGroupId ⟨id, s.header.timestamp, s.header.hash, 1, s.txId⟩).toList
  | .groupControlV1 gc =>
    let recipient := gc.recipientPubkey.bind fun key =>
      (decodeFixedHex 32 key).map AddressPayload.fromXonlyPubkey
    (recipient.map fun recipient =>
      .groupControlByRecipient ⟨recipient, s.header.timestamp, s.header.hash, 1, s.txId⟩).toList ++
      [.groupControlBySender ⟨s.sender.getD default, s.header.timestamp, s.header.hash, 1, s.txId,
        recipient.getD default⟩]

/-- Whether a message of a group passes its checks under the sender. -/
def admits (rows : Rows) (sender : AddressPayload) : SealedOperation → Bool
  | .groupMessageV1 gm =>
    ((decodeFixedHex 32 gm.blindedGroupId).bind fun id =>
      (decodeFixedHex 32 gm.senderPub).map fun pub =>
        (admitGroupMessage rows.groupSenderBinding sender id pub).1).getD true
  | _ => true

variable {s : Sighting} {op : SealedOperation} {rows : Rows} {w : Written} {a : AddressPayload}

theorem slotsOf_spec {s : Sighting} {op : SealedOperation} {slot : Slot}
    (h : slot ∈ slotsOf s op) : kindOf slot = opKind op ∧ txIdOf slot = s.txId ∧
      ∀ r ∈ receiverOf slot, r = s.receiver ∧ (opKind op = .handshake ∨ opKind op = .payment) := by
  cases op with
  | contextualMessageV1 cm =>
    simp only [slotsOf, List.mem_cons, Option.mem_toList, Option.map_eq_some_iff] at h
    rcases h with rfl | ⟨tag, -, rfl⟩ <;> simp [kindOf, opKind, txIdOf, receiverOf]
  | groupMessageV1 gm =>
    simp only [slotsOf, Option.mem_toList, Option.map_eq_some_iff] at h
    obtain ⟨id, -, rfl⟩ := h
    simp [kindOf, opKind, txIdOf, receiverOf]
  | groupControlV1 gc =>
    simp only [slotsOf, List.mem_append, Option.mem_toList, Option.map_eq_some_iff,
      List.mem_singleton] at h
    rcases h with ⟨recipient, -, rfl⟩ | rfl <;> simp [kindOf, opKind, txIdOf, receiverOf]
  | selfStashV1 stash =>
    simp only [slotsOf, List.mem_singleton] at h
    subst h
    simp [kindOf, opKind, txIdOf, receiverOf]
  | _ =>
    simp only [slotsOf, List.mem_cons, List.not_mem_nil, or_false] at h
    rcases h with rfl | rfl <;> simp [kindOf, opKind, txIdOf, receiverOf]

/-- What a handler writes: the payload, and the rows with their sender; without one, the rows of the
keys that need none, and an entry for each slot. -/
structure Writes (s : Sighting) (kind : PushEventKind) (payload : ℕ × Bytes) (slots : List Slot)
    (rows : Rows) (w : Written) : Prop where
  payload : PayloadPut rows w.rows kind s.txId payload
  entries : w.entries = if s.sender = none then slots else []
  rows : Filled rows w.rows (if s.sender = none then slots.filter (keySender · = none) else slots)
    (s.sender.getD default)

theorem insertHandshake_writes (version : ℕ) (sealedHex : Bytes) (slots : List Slot)
    (order : InsertionEntry → InsertionEntry → List InsertionEntry)
    (hslots : slots = order
      (.handshakeByReceiver ⟨s.receiver, s.header.timestamp, s.header.hash, version, s.txId⟩)
      (.handshakeBySender ⟨s.sender.getD default, s.header.timestamp, s.header.hash, s.receiver,
        version, s.txId⟩))
    (horder : ∀ a b slot, slot ∈ order a b ↔ slot = a ∨ slot = b) :
    Writes s .handshake (0, sealedHex) slots rows
      (insertHandshake version s sealedHex rows order) := by
  subst hslots
  cases hsender : s.sender with
  | none =>
    refine ⟨fun kind txId => ?_, ?_, fun slot => ?_⟩
    · cases kind <;> simp [insertHandshake, hsender, payloadAt, get_put_map]
    · simp [insertHandshake, hsender]
    · cases slot <;> simp [insertHandshake, hsender, senderAt, get_fill, horder, keySender]
  | some a =>
    refine ⟨fun kind txId => ?_, ?_, fun slot => ?_⟩
    · cases kind <;> simp [insertHandshake, hsender, payloadAt, get_put_map]
    · simp [insertHandshake, hsender]
    · cases slot <;> simp [insertHandshake, hsender, senderAt, get_fill, get_put_key, horder]

theorem handlePayment_writes (sealedHex : Bytes) :
    Writes s .payment (s.amount, sealedHex) (slotsOf s (.paymentV1 sealedHex)) rows
      (handlePayment s sealedHex rows) := by
  cases hsender : s.sender with
  | none =>
    refine ⟨fun kind txId => ?_, ?_, fun slot => ?_⟩
    · cases kind <;> simp [handlePayment, hsender, payloadAt, get_put]
    · simp [handlePayment, hsender, slotsOf]
    · cases slot <;> simp [handlePayment, hsender, slotsOf, senderAt, get_fill, keySender]
  | some a =>
    refine ⟨fun kind txId => ?_, ?_, fun slot => ?_⟩
    · cases kind <;> simp [handlePayment, hsender, payloadAt, get_put]
    · simp [handlePayment, hsender]
    · cases slot <;> simp [handlePayment, hsender, slotsOf, senderAt, get_fill, get_put_key]

theorem handleSelfStash_writes (stash : SealedSelfStash) :
    Writes s .selfStash (0, stash.sealedHex) (slotsOf s (.selfStashV1 stash)) rows
      (handleSelfStash s stash rows) := by
  cases hsender : s.sender with
  | none =>
    refine ⟨fun kind txId => ?_, ?_, fun slot => ?_⟩
    · cases kind <;> simp [handleSelfStash, hsender, payloadAt, get_put_map]
    · simp [handleSelfStash, hsender, slotsOf]
    · cases slot <;> simp [handleSelfStash, hsender, slotsOf, senderAt, keySender]
  | some a =>
    refine ⟨fun kind txId => ?_, ?_, fun slot => ?_⟩
    · cases kind <;> simp [handleSelfStash, hsender, payloadAt, get_put_map]
    · simp [handleSelfStash, hsender]
    · cases slot <;> simp [handleSelfStash, hsender, slotsOf, senderAt, get_put_key]

theorem handleContextualMessage_writes (cm : SealedContextualMessage) :
    Writes s .contextual (0, cm.sealedHex) (slotsOf s (.contextualMessageV1 cm)) rows
      (handleContextualMessage s cm rows) := by
  cases htag : cm.inboxTag.bind (decodeFixedHex 16) with
  | none =>
    cases hsender : s.sender with
    | none =>
      refine ⟨fun kind txId => ?_, ?_, fun slot => ?_⟩
      · cases kind <;> simp [handleContextualMessage, htag, hsender, payloadAt, get_put_map]
      · simp [handleContextualMessage, htag, hsender, slotsOf]
      · cases slot <;> simp [handleContextualMessage, htag, hsender, slotsOf, senderAt, keySender]
    | some a =>
      refine ⟨fun kind txId => ?_, ?_, fun slot => ?_⟩
      · cases kind <;> simp [handleContextualMessage, htag, hsender, payloadAt, get_put_map]
      · simp [handleContextualMessage, htag, hsender]
      · cases slot <;> simp [handleContextualMessage, htag, hsender, slotsOf, senderAt, get_put_key]
  | some tag =>
    cases hsender : s.sender with
    | none =>
      refine ⟨fun kind txId => ?_, ?_, fun slot => ?_⟩
      · cases kind <;> simp [handleContextualMessage, htag, hsender, payloadAt, get_put_map]
      · simp [handleContextualMessage, htag, hsender, slotsOf]
      · cases slot <;>
          simp [handleContextualMessage, htag, hsender, slotsOf, senderAt, get_fill, keySender]
    | some a =>
      refine ⟨fun kind txId => ?_, ?_, fun slot => ?_⟩
      · cases kind <;> simp [handleContextualMessage, htag, hsender, payloadAt, get_put_map]
      · simp [handleContextualMessage, htag, hsender]
      · cases slot <;>
          simp [handleContextualMessage, htag, hsender, slotsOf, senderAt, get_fill, get_put_key]

theorem insertGroupControl_writes (gc : SealedGroupControl) (recipient : Option AddressPayload)
    (hrecipient : recipient = gc.recipientPubkey.bind fun key =>
      (decodeFixedHex 32 key).map AddressPayload.fromXonlyPubkey) :
    Writes s .groupControl (0, gc.encryptedPayload) (slotsOf s (.groupControlV1 gc)) rows
      (insertGroupControl s gc.encryptedPayload recipient rows) := by
  cases hsender : s.sender with
  | none =>
    cases recipient with
    | none =>
      refine ⟨fun kind txId => ?_, ?_, fun slot => ?_⟩
      · cases kind <;> simp [insertGroupControl, hsender, payloadAt, get_put_map]
      · simp [insertGroupControl, hsender, slotsOf, ← hrecipient]
      · cases slot <;> simp [insertGroupControl, hsender, slotsOf, senderAt, keySender, ← hrecipient]
    | some recipient =>
      refine ⟨fun kind txId => ?_, ?_, fun slot => ?_⟩
      · cases kind <;> simp [insertGroupControl, hsender, payloadAt, get_put_map]
      · simp [insertGroupControl, hsender, slotsOf, ← hrecipient]
      · cases slot <;>
          simp [insertGroupControl, hsender, slotsOf, senderAt, get_fill, keySender, ← hrecipient]
  | some a =>
    cases recipient with
    | none =>
      refine ⟨fun kind txId => ?_, ?_, fun slot => ?_⟩
      · cases kind <;> simp [insertGroupControl, hsender, payloadAt, get_put_map]
      · simp [insertGroupControl, hsender]
      · cases slot <;>
          simp [insertGroupControl, hsender, slotsOf, senderAt, get_put_key, ← hrecipient]
    | some recipient =>
      refine ⟨fun kind txId => ?_, ?_, fun slot => ?_⟩
      · cases kind <;> simp [insertGroupControl, hsender, payloadAt, get_put_map]
      · simp [insertGroupControl, hsender]
      · cases slot <;>
          simp [insertGroupControl, hsender, slotsOf, senderAt, get_fill, get_put_key, ← hrecipient]

theorem insertGroupMessage_writes {gm : SealedGroupMessage} {id pub : Bytes}
    (hid : decodeFixedHex 32 gm.blindedGroupId = some id)
    (hpub : decodeFixedHex 32 gm.senderPub = some pub)
    (hadmits : ∀ a ∈ s.sender, admits rows a (.groupMessageV1 gm) = true) :
    Writes s .groupMessage (0, gm.sealedHex) (slotsOf s (.groupMessageV1 gm)) rows
      (insertGroupMessage s gm.sealedHex id pub rows) := by
  cases hsender : s.sender with
  | none =>
    refine ⟨fun kind txId => ?_, ?_, fun slot => ?_⟩
    · cases kind <;> simp [insertGroupMessage, hsender, payloadAt, get_put_map]
    · simp [insertGroupMessage, hsender, slotsOf, hid]
    · cases slot <;>
        simp [insertGroupMessage, hsender, slotsOf, senderAt, get_fill, keySender, hid]
  | some a =>
    have hpasses : (admitGroupMessage rows.groupSenderBinding a id pub).1 = true := by
      simpa [admits, hid, hpub] using hadmits a hsender
    refine ⟨fun kind txId => ?_, ?_, fun slot => ?_⟩
    · cases kind <;> simp [insertGroupMessage, hsender, hpasses, payloadAt, get_put_map]
    · simp [insertGroupMessage, hsender, hpasses]
    · cases slot <;> simp [insertGroupMessage, hsender, hpasses, slotsOf, senderAt, get_fill, hid]

theorem handleGroupMessage_some {gm : SealedGroupMessage}
    (h : handleGroupMessage s gm rows = some w) : ∃ id pub,
      decodeFixedHex 32 gm.blindedGroupId = some id ∧ decodeFixedHex 32 gm.senderPub = some pub ∧
        w = insertGroupMessage s gm.sealedHex id pub rows := by
  obtain ⟨id, hid, h⟩ := Option.bind_eq_some_iff.mp h
  obtain ⟨pub, hpub, rfl⟩ := Option.map_eq_some_iff.mp h
  exact ⟨id, pub, hid, hpub, rfl⟩

theorem handleGroupControl_some {gc : SealedGroupControl}
    (h : handleGroupControl s gc rows = some w) : ∃ recipient,
      (recipient = gc.recipientPubkey.bind fun key =>
        (decodeFixedHex 32 key).map AddressPayload.fromXonlyPubkey) ∧
        w = insertGroupControl s gc.encryptedPayload recipient rows := by
  unfold handleGroupControl at h
  cases hrecipient : gc.recipientPubkey with
  | none =>
    simp only [hrecipient, Option.some.injEq] at h
    exact ⟨none, rfl, h.symm⟩
  | some key =>
    simp only [hrecipient, Option.map_eq_some_iff] at h
    obtain ⟨pubkey, hpubkey, rfl⟩ := h
    exact ⟨_, by simp [hpubkey], rfl⟩

/-- All handlers write so, where the message passes the checks of its group. -/
theorem handleOperation_writes (h : handleOperation s op rows = some w)
    (hadmits : ∀ a ∈ s.sender, admits rows a op = true) :
    Writes s (opKind op) (payloadOf s op) (slotsOf s op) rows w := by
  cases op with
  | sealedMessageOrSealedHandshakeVNone sealedHex =>
    obtain rfl := Option.some.inj h
    exact insertHandshake_writes 0 sealedHex _ _ rfl (by simp)
  | sealedHandshakeV2 sealedHex =>
    obtain rfl := Option.some.inj h
    exact insertHandshake_writes 2 sealedHex _ _ rfl (by simp [or_comm])
  | contextualMessageV1 cm =>
    obtain rfl := Option.some.inj h
    exact handleContextualMessage_writes cm
  | paymentV1 sealedHex =>
    obtain rfl := Option.some.inj h
    exact handlePayment_writes sealedHex
  | selfStashV1 stash =>
    obtain rfl := Option.some.inj h
    exact handleSelfStash_writes stash
  | groupMessageV1 gm =>
    obtain ⟨id, pub, hid, hpub, rfl⟩ := handleGroupMessage_some h
    exact insertGroupMessage_writes hid hpub hadmits
  | groupControlV1 gc =>
    obtain ⟨recipient, hrecipient, rfl⟩ := handleGroupControl_some h
    exact insertGroupControl_writes gc recipient hrecipient

/-- The pushes of a handler are of its kind. -/
theorem handleOperation_pushes (h : handleOperation s op rows = some w) :
    ∀ push ∈ w.pushes, push.kind = opKind op := by
  cases op with
  | sealedMessageOrSealedHandshakeVNone sealedHex =>
    obtain rfl := Option.some.inj h
    cases hsender : s.sender <;>
      simp [handleHandshake, insertHandshake, hsender, opKind, Sighting.push]
  | sealedHandshakeV2 sealedHex =>
    obtain rfl := Option.some.inj h
    cases hsender : s.sender <;>
      simp [handleHandshakeV2, insertHandshake, hsender, opKind, Sighting.push]
  | contextualMessageV1 cm =>
    obtain rfl := Option.some.inj h
    cases htag : cm.inboxTag.bind (decodeFixedHex 16) <;> cases hsender : s.sender <;>
      simp [handleContextualMessage, htag, hsender, opKind, Sighting.push]
  | paymentV1 sealedHex =>
    obtain rfl := Option.some.inj h
    cases hsender : s.sender <;> simp [handlePayment, hsender, opKind, Sighting.push]
  | selfStashV1 stash =>
    obtain rfl := Option.some.inj h
    cases hsender : s.sender <;> simp [handleSelfStash, hsender, opKind, Sighting.push]
  | groupMessageV1 gm =>
    obtain ⟨id, pub, -, -, rfl⟩ := handleGroupMessage_some h
    unfold insertGroupMessage
    split
    · simp
    · dsimp only
      split <;> simp [opKind, Sighting.push]
  | groupControlV1 gc =>
    obtain ⟨recipient, -, rfl⟩ := handleGroupControl_some h
    cases hsender : s.sender <;> simp [insertGroupControl, hsender, opKind, Sighting.push]

/-- A message that does not pass them changes no row. -/
theorem handleOperation_rejects (h : handleOperation s op rows = some w) (ha : s.sender = some a)
    (hrejects : admits rows a op = false) :
    w.entries = [] ∧ senderAt w.rows = senderAt rows ∧ payloadAt w.rows = payloadAt rows := by
  cases op with
  | groupMessageV1 gm =>
    obtain ⟨id, pub, hid, hpub, rfl⟩ := handleGroupMessage_some h
    have hpasses : (admitGroupMessage rows.groupSenderBinding a id pub).1 = false := by
      simpa [admits, hid, hpub] using hrejects
    refine ⟨?_, funext fun slot => ?_, funext fun txId => funext fun kind => ?_⟩
    · simp [insertGroupMessage, ha, hpasses]
    · cases slot <;> simp [insertGroupMessage, ha, hpasses, senderAt]
    · cases kind <;> simp [insertGroupMessage, ha, hpasses, payloadAt]
  | _ => cases hrejects

/-! ## The sender from the node -/

/-- The row of an entry has the sender. -/
def Answered (r : Resolution) (entry : Slot) (rows rows' : Rows) : Prop :=
  Filled rows rows' [withSender r.sender entry] r.sender ∧ payloadAt rows' = payloadAt rows

/-- The row of an entry and the payload are gone. -/
def Dropped (entry : Slot) (rows rows' : Rows) : Prop :=
  kindOf entry = .groupMessage ∧
    (∀ slot, senderAt rows' slot = if slot = entry then none else senderAt rows slot) ∧
    ∀ kind txId, payloadAt rows' txId kind =
      if kind = .groupMessage ∧ txId = txIdOf entry then none else payloadAt rows txId kind

theorem dropGroupMessage_dropped (key : GroupMessageKeyByBlindedGroupId) (rows : Rows) :
    Dropped (.groupMessageByBlindedGroupId key) rows (dropGroupMessage key rows) := by
  refine ⟨rfl, fun slot => ?_, fun kind txId => ?_⟩
  · cases slot <;> simp [dropGroupMessage, senderAt, get_erase]
  · cases kind <;> simp [dropGroupMessage, payloadAt, get_erase, txIdOf, apply_ite (Option.map _)]

theorem resolveGroupMessage_answered {r : Resolution} {key : GroupMessageKeyByBlindedGroupId}
    {rows' : Rows} {pushes : List PushEvent}
    (h : resolveGroupMessage r key rows = some (rows', pushes)) :
    Answered r (.groupMessageByBlindedGroupId key) rows rows' ∨
      Dropped (.groupMessageByBlindedGroupId key) rows rows' := by
  unfold resolveGroupMessage at h
  obtain ⟨payload, -, h⟩ := Option.bind_eq_some_iff.mp h
  split at h
  · obtain ⟨pub, -, h⟩ := Option.map_eq_some_iff.mp h
    dsimp only at h
    split at h
    · obtain ⟨rfl, -⟩ := Prod.ext_iff.mp h
      refine .inl ⟨fun slot => ?_, rfl⟩
      cases slot <;> simp [senderAt, get_fill, withSender]
    · obtain ⟨rfl, -⟩ := Prod.ext_iff.mp h
      exact .inr (dropGroupMessage_dropped key { rows with
        groupSenderBinding :=
          (admitGroupMessage rows.groupSenderBinding r.sender key.blindedGroupId pub).2 })
  · obtain ⟨rfl, -⟩ := Prod.ext_iff.mp (Option.some.inj h)
    exact .inr (dropGroupMessage_dropped key rows)

/-- One entry is answered, or it is of a group message and its row is dropped. -/
theorem resolveEntry_answered {r : Resolution} {entry : Slot} {rows' : Rows}
    {pushes : List PushEvent} (h : resolveEntry r entry rows = some (rows', pushes)) :
    Answered r entry rows rows' ∨ Dropped entry rows rows' := by
  cases entry with
  | groupMessageByBlindedGroupId key => exact resolveGroupMessage_answered h
  | _ =>
    obtain ⟨rfl, -⟩ := Prod.ext_iff.mp (Option.some.inj h)
    refine .inl ⟨fun slot => ?_, rfl⟩
    cases slot <;> simp [senderAt, get_fill, get_put_key, withSender, resolvePayment]

/-- An invariant of each entry's answer, and of the pushes sent so far, holds after all of them. -/
theorem resolveEntries_inv (inv : Rows → List PushEvent → Prop) {r : Resolution}
    {entries : List Slot} (hstep : ∀ entry ∈ entries, ∀ rows sent rows' pushes, inv rows sent →
      resolveEntry r entry rows = some (rows', pushes) → inv rows' (sent ++ pushes))
    (sent : List PushEvent) {rows' : Rows} {pushes : List PushEvent} (hrows : inv rows sent)
    (h : resolveEntries r entries rows = some (rows', pushes)) : inv rows' (sent ++ pushes) := by
  induction entries generalizing rows sent pushes with
  | nil =>
    obtain ⟨rfl, rfl⟩ := Prod.ext_iff.mp (Option.some.inj h)
    simpa using hrows
  | cons entry entries ih =>
    obtain ⟨⟨middle, first⟩, hfirst, h⟩ := Option.bind_eq_some_iff.mp h
    obtain ⟨⟨last, rest⟩, hrest, heq⟩ := Option.map_eq_some_iff.mp h
    obtain ⟨rfl, rfl⟩ := Prod.ext_iff.mp heq
    have hmiddle := hstep entry (by simp) _ _ _ _ hrows hfirst
    simpa using ih (fun e he => hstep e (by simp [he])) _ hmiddle hrest

end KaChatIndexer.ChatSlots

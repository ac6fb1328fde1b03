import KaChatIndexer.ChatPayload

/-!
# Message rows

The partitions of the chat indexer's store, and what a sealed operation writes to them. A row whose
sender is not known yet leaves an entry behind, to be filled in once it is.
-/
namespace KaChatIndexer.ChatRows
open ByteStrings ChatPayload

abbrev TxId := Bytes
abbrev Hash := Bytes

/-! ## Addresses -/

/-- `inverseVersion` is 0 when the address is not known at all. -/
structure AddressPayload where
  inverseVersion : UInt8
  payload : List.Vector UInt8 33
  deriving DecidableEq

/-- The bytes, with zeros after them. -/
def payload33 (b : Bytes) : List.Vector UInt8 33 := ⟨(b ++ List.replicate 33 0).take 33, by simp⟩

instance : Inhabited AddressPayload := ⟨⟨0, payload33 []⟩⟩

inductive ScriptClass where
  | nonStandard | pubKey | pubKeyECDSA | scriptHash
  deriving DecidableEq

structure ScriptPublicKey where
  version : ℕ
  script : Bytes
  deriving DecidableEq

/-- What comes from other crates, and the lists of a personal indexer. -/
structure Env where
  classOf : ScriptPublicKey → ScriptClass
  classVersion : ScriptClass → ℕ
  personalAddresses : List AddressPayload
  personalInboxTags : List Bytes
  personalGroupIds : List Bytes

namespace AddressPayload

def fromXonlyPubkey (pubkey : Bytes) : AddressPayload := ⟨255 - 0, payload33 (pubkey.take 32)⟩

def matchesXonlyPubkey (a : AddressPayload) (pubkey : Bytes) : Bool :=
  a.inverseVersion = 255 - 0 ∧ a.payload.toList.take 32 = pubkey

/-- The address of a standard script. -/
def tryFrom (env : Env) (key : ScriptPublicKey) : Option AddressPayload :=
  let class' := env.classOf key
  if env.classVersion class' < key.version then none
  else
    match class' with
    | .nonStandard => none
    | .pubKey => some ⟨255 - 0, payload33 ((key.script.drop 1).take 32)⟩
    | .pubKeyECDSA => some ⟨255 - 1, payload33 ((key.script.drop 1).take 33)⟩
    | .scriptHash => some ⟨255 - 8, payload33 ((key.script.drop 2).take 32)⟩

end AddressPayload

/-- No script has the empty address. -/
theorem tryFrom_ne_default {env : Env} {key : ScriptPublicKey} {a : AddressPayload}
    (h : AddressPayload.tryFrom env key = some a) : a ≠ default := by
  have hversion : a.inverseVersion ≠ 0 := by
    unfold AddressPayload.tryFrom at h
    dsimp only at h
    split at h
    · cases h
    · split at h
      · cases h
      all_goals
        obtain rfl := Option.some.inj h
        dsimp only
        decide
  exact fun heq => hversion (congrArg AddressPayload.inverseVersion heq)

/-! ## Keys -/

structure HandshakeKeyByReceiver where
  receiver : AddressPayload
  blockTime : ℕ
  blockHash : Hash
  version : ℕ
  txId : TxId
  deriving DecidableEq

structure HandshakeKeyBySender where
  sender : AddressPayload
  blockTime : ℕ
  blockHash : Hash
  receiver : AddressPayload
  version : ℕ
  txId : TxId
  deriving DecidableEq

structure ContextualMessageBySenderKey where
  sender : AddressPayload
  aliasBytes : Bytes
  blockTime : ℕ
  blockHash : Hash
  receiver : AddressPayload
  version : ℕ
  txId : TxId
  deriving DecidableEq

structure ContextualMessageByInboxKey where
  inboxTag : Bytes
  blockTime : ℕ
  txId : TxId
  deriving DecidableEq

structure PaymentKeyByReceiver where
  receiver : AddressPayload
  blockTime : ℕ
  blockHash : Hash
  version : ℕ
  txId : TxId
  deriving DecidableEq

structure PaymentKeyBySender where
  sender : AddressPayload
  blockTime : ℕ
  blockHash : Hash
  receiver : AddressPayload
  version : ℕ
  txId : TxId
  deriving DecidableEq

structure SelfStashKeyByOwner where
  owner : AddressPayload
  scope : Bytes
  blockTime : ℕ
  blockHash : Hash
  version : ℕ
  txId : TxId
  deriving DecidableEq

structure GroupMessageKeyByBlindedGroupId where
  blindedGroupId : Bytes
  blockTime : ℕ
  blockHash : Hash
  version : ℕ
  txId : TxId
  deriving DecidableEq

structure GroupControlKeyBySender where
  sender : AddressPayload
  blockTime : ℕ
  blockHash : Hash
  version : ℕ
  txId : TxId
  recipient : AddressPayload
  deriving DecidableEq

structure GroupControlKeyByRecipient where
  recipient : AddressPayload
  blockTime : ℕ
  blockHash : Hash
  version : ℕ
  txId : TxId
  deriving DecidableEq

/-! ## Partitions -/

/-- The rows of a partition, each key once. -/
abbrev Partition (κ ν : Type) := List (κ × ν)

section
variable {κ ν : Type} [DecidableEq κ]

def get (p : Partition κ ν) (k : κ) : Option ν := p.lookup k

def put (p : Partition κ ν) (k : κ) (v : ν) : Partition κ ν := (k, v) :: p.filter (·.1 ≠ k)

def erase (p : Partition κ ν) (k : κ) : Partition κ ν := p.filter (·.1 ≠ k)

theorem lookup_filter {p : Partition κ ν} {k k' : κ} (h : k' ≠ k) :
    (p.filter (·.1 ≠ k)).lookup k' = p.lookup k' := by
  induction p with
  | nil => rfl
  | cons entry p ih =>
    obtain ⟨k'', v⟩ := entry
    rw [List.filter_cons]
    split
    · rw [List.lookup_cons, List.lookup_cons, ih]
    · next hentry =>
      have hkey : k'' = k := by simpa using hentry
      rw [ih, List.lookup_cons, beq_false_of_ne (hkey ▸ h)]

theorem get_put (p : Partition κ ν) (k : κ) (v : ν) (k' : κ) :
    get (put p k v) k' = if k' = k then some v else get p k' := by
  unfold get put
  rw [List.lookup_cons]
  by_cases h : k' = k
  · rw [if_pos h, beq_iff_eq.mpr h]
  · rw [if_neg h, beq_false_of_ne h]
    exact lookup_filter h

/-- The keys of a partition. -/
def keys (p : Partition κ ν) : List κ := p.map (·.1)

theorem mem_keys_put {p : Partition κ ν} {k : κ} {v : ν} {k' : κ} :
    k' ∈ keys (put p k v) ↔ k' = k ∨ k' ∈ keys p := by
  unfold keys put
  rw [List.map_cons, List.mem_cons]
  by_cases h : k' = k
  · simp [h]
  · simp only [h, false_or, List.mem_map, List.mem_filter]
    constructor
    · rintro ⟨entry, ⟨hmem, -⟩, rfl⟩
      exact ⟨entry, hmem, rfl⟩
    · rintro ⟨entry, hmem, rfl⟩
      exact ⟨entry, ⟨hmem, decide_eq_true h⟩, rfl⟩

theorem nodup_keys_put {p : Partition κ ν} (h : (keys p).Nodup) (k : κ) (v : ν) :
    (keys (put p k v)).Nodup := by
  refine List.nodup_cons.mpr ⟨fun hmem => ?_, h.sublist (List.filter_sublist.map _)⟩
  obtain ⟨entry, hentry, hkey⟩ := List.mem_map.mp hmem
  exact of_decide_eq_true (List.mem_filter.mp hentry).2 hkey

theorem get_isSome {p : Partition κ ν} {k : κ} : (get p k).isSome ↔ k ∈ keys p := by
  induction p with
  | nil => simp [get, keys]
  | cons entry p ih =>
    unfold get keys at ih ⊢
    rw [List.lookup_cons, List.map_cons, List.mem_cons]
    by_cases h : k = entry.1
    · simp [h]
    · rw [beq_false_of_ne h]
      simp [h, ih]

/-- A sender that is known stays. -/
def fill (p : Partition κ AddressPayload) (k : κ) (sender : Option AddressPayload) :
    Partition κ AddressPayload :=
  match get p k with
  | none => put p k (sender.getD default)
  | some old => if old ≠ default then put p k old else put p k (sender.getD default)

theorem nodup_keys_fill {p : Partition κ AddressPayload} (h : (keys p).Nodup) (k : κ)
    (sender : Option AddressPayload) : (keys (fill p k sender)).Nodup := by
  unfold fill
  split
  · exact nodup_keys_put h k _
  · split <;> exact nodup_keys_put h k _

theorem mem_of_get {p : Partition κ ν} {k : κ} {v : ν} (h : get p k = some v) : (k, v) ∈ p := by
  induction p with
  | nil => cases h
  | cons row p ih =>
    unfold get at h ih
    rw [List.lookup_cons] at h
    by_cases hkey : k = row.1
    · rw [beq_iff_eq.mpr hkey] at h
      rw [hkey, ← Option.some.inj h]
      exact List.mem_cons_self
    · rw [beq_false_of_ne hkey] at h
      exact List.mem_cons_of_mem row (ih h)

/-- A row is found under its key. -/
theorem get_of_mem {p : Partition κ ν} (h : (keys p).Nodup) {row : κ × ν} (hrow : row ∈ p) :
    get p row.1 = some row.2 := by
  induction p with
  | nil => cases hrow
  | cons first p ih =>
    obtain ⟨hfirst, hrest⟩ := List.nodup_cons.mp h
    unfold get
    rw [List.lookup_cons]
    rcases List.mem_cons.mp hrow with rfl | hrow
    · simp
    · have hne : row.1 ≠ first.1 := fun heq => hfirst (List.mem_map.mpr ⟨row, hrow, heq⟩)
      rw [beq_false_of_ne hne]
      exact ih hrest hrow

end

/-- The partitions that hold messages. -/
structure Rows where
  txIdToHandshake : Partition TxId Bytes
  handshakeByReceiver : Partition HandshakeKeyByReceiver AddressPayload
  handshakeBySender : Partition HandshakeKeyBySender Unit
  txIdToContextualMessage : Partition TxId Bytes
  contextualMessageBySender : Partition ContextualMessageBySenderKey Unit
  contextualMessageByInbox : Partition ContextualMessageByInboxKey AddressPayload
  txIdToPayment : Partition TxId (ℕ × Bytes)
  paymentByReceiver : Partition PaymentKeyByReceiver AddressPayload
  paymentBySender : Partition PaymentKeyBySender Unit
  txIdToSelfStash : Partition TxId Bytes
  selfStashByOwner : Partition SelfStashKeyByOwner Unit
  txIdToGroupMessage : Partition TxId Bytes
  groupMessageByBlindedGroupId : Partition GroupMessageKeyByBlindedGroupId AddressPayload
  groupSenderBinding : Partition Bytes Bytes
  txIdToGroupControl : Partition TxId Bytes
  groupControlByRecipient : Partition GroupControlKeyByRecipient AddressPayload
  groupControlBySender : Partition GroupControlKeyBySender Unit

def Rows.empty : Rows := ⟨[], [], [], [], [], [], [], [], [], [], [], [], [], [], [], [], []⟩

/-- The key of a row that waits for its sender, in the partition that its action updates or inserts
into. -/
inductive InsertionEntry where
  | handshakeByReceiver (key : HandshakeKeyByReceiver)
  | handshakeBySender (key : HandshakeKeyBySender)
  | contextualMessageBySender (key : ContextualMessageBySenderKey)
  | contextualMessageByInbox (key : ContextualMessageByInboxKey)
  | paymentByReceiver (key : PaymentKeyByReceiver)
  | paymentBySender (key : PaymentKeyBySender)
  | selfStashByOwner (key : SelfStashKeyByOwner)
  | groupMessageByBlindedGroupId (key : GroupMessageKeyByBlindedGroupId)
  | groupControlByRecipient (key : GroupControlKeyByRecipient)
  | groupControlBySender (key : GroupControlKeyBySender)
  deriving DecidableEq

/-! ## Pushes -/

inductive PushEventKind where
  | handshake | contextual | payment | selfStash | groupMessage | groupControl
  deriving DecidableEq

structure PushEvent where
  kind : PushEventKind
  watchedAddress : AddressPayload
  sender : AddressPayload
  receiver : AddressPayload
  aliasText : Option Bytes
  txId : TxId
  amount : Option ℕ
  payload : Option Bytes
  timestamp : ℕ
  daaScore : ℕ
  blindedGroupId : Option Bytes
  groupControlRecipient : Option AddressPayload
  inboxTag : Option Bytes
  deriving DecidableEq

/-- `[u8; N]` with zeros after the first bytes. -/
def padded (n : ℕ) (b : Bytes) : Bytes := (b ++ List.replicate n 0).take n

/-- The text before the first zero, unless it is blank. -/
def parseSelfStashAlias (raw : Bytes) : Option Bytes :=
  let name := raw.takeWhile (· ≠ 0)
  if name = [] then none
  else
    ((KaText.utf8Decode name).map KaText.trim).bind fun t =>
      if t = [] then none else some (String.ofList t).toUTF8.toList

/-! ## Handlers -/

structure RpcHeader where
  hash : Hash
  timestamp : ℕ
  daaScore : ℕ
  blueWork : ℕ
  deriving DecidableEq

/-- A transaction as it is seen in one block. -/
structure Sighting where
  header : RpcHeader
  txId : TxId
  amount : ℕ
  receiver : AddressPayload
  sender : Option AddressPayload

/-- What a handler leaves: the rows, the entries that wait for a sender, and the pushes. -/
structure Written where
  rows : Rows
  entries : List InsertionEntry
  pushes : List PushEvent

/-- A push for one sighting, with what most kinds leave out. -/
def Sighting.push (s : Sighting) (kind : PushEventKind) (watched sender receiver : AddressPayload)
    (payload : Bytes) : PushEvent :=
  ⟨kind, watched, sender, receiver, none, s.txId, none, some (fromUtf8Lossy payload),
    s.header.timestamp, s.header.daaScore, none, none, none⟩

/-- A handshake of either version. What waits for the sender comes in the order that is given. -/
def insertHandshake (version : ℕ) (s : Sighting) (sealedHex : Bytes) (rows : Rows)
    (order : InsertionEntry → InsertionEntry → List InsertionEntry) : Written :=
  let hsKey : HandshakeKeyByReceiver :=
    ⟨s.receiver, s.header.timestamp, s.header.hash, version, s.txId⟩
  let bySenderKey : HandshakeKeyBySender :=
    ⟨s.sender.getD default, s.header.timestamp, s.header.hash, s.receiver, version, s.txId⟩
  let rows := { rows with
    txIdToHandshake := put rows.txIdToHandshake s.txId sealedHex
    handshakeByReceiver := fill rows.handshakeByReceiver hsKey s.sender }
  match s.sender with
  | some sender =>
    ⟨{ rows with handshakeBySender := put rows.handshakeBySender bySenderKey () }, [],
      [s.push .handshake s.receiver sender s.receiver sealedHex]⟩
  | none => ⟨rows, order (.handshakeByReceiver hsKey) (.handshakeBySender bySenderKey), []⟩

def handleHandshake (s : Sighting) (sealedHex : Bytes) (rows : Rows) : Written :=
  insertHandshake 0 s sealedHex rows fun byReceiver bySender => [byReceiver, bySender]

def handleHandshakeV2 (s : Sighting) (sealedHex : Bytes) (rows : Rows) : Written :=
  insertHandshake 2 s sealedHex rows fun byReceiver bySender => [bySender, byReceiver]

/-- A message goes to its sender's rows, and with a tag that decodes to the inbox too. -/
def handleContextualMessage (s : Sighting) (cm : SealedContextualMessage) (rows : Rows) : Written :=
  let cmk : ContextualMessageBySenderKey :=
    ⟨s.sender.getD default, padded 16 cm.aliasBytes, s.header.timestamp, s.header.hash, s.receiver,
      1, s.txId⟩
  let rows := { rows with
    txIdToContextualMessage := put rows.txIdToContextualMessage s.txId cm.sealedHex }
  let first : Written :=
    match s.sender with
    | some sender =>
      ⟨{ rows with contextualMessageBySender := put rows.contextualMessageBySender cmk () }, [],
        [{ s.push .contextual sender sender s.receiver cm.sealedHex with
          aliasText := some (fromUtf8Lossy cm.aliasBytes) }]⟩
    | none => ⟨rows, [.contextualMessageBySender cmk], []⟩
  match cm.inboxTag.bind (decodeFixedHex 16) with
  | none => first
  | some tag =>
    let ik : ContextualMessageByInboxKey := ⟨tag, s.header.timestamp, s.txId⟩
    let rows := { first.rows with
      contextualMessageByInbox := fill first.rows.contextualMessageByInbox ik s.sender }
    match s.sender with
    | some sender => ⟨rows, first.entries, first.pushes ++
        [{ s.push .contextual s.receiver sender s.receiver cm.sealedHex with inboxTag := some tag }]⟩
    | none => ⟨rows, first.entries ++ [.contextualMessageByInbox ik], first.pushes⟩

def handlePayment (s : Sighting) (sealedHex : Bytes) (rows : Rows) : Written :=
  let pmKey : PaymentKeyByReceiver :=
    ⟨s.receiver, s.header.timestamp, s.header.hash, 0, s.txId⟩
  let bySenderKey : PaymentKeyBySender :=
    ⟨s.sender.getD default, s.header.timestamp, s.header.hash, s.receiver, 0, s.txId⟩
  let rows := { rows with
    txIdToPayment := put rows.txIdToPayment s.txId (s.amount, sealedHex)
    paymentByReceiver := fill rows.paymentByReceiver pmKey s.sender }
  match s.sender with
  | some sender =>
    ⟨{ rows with paymentBySender := put rows.paymentBySender bySenderKey () }, [],
      if sender ≠ s.receiver then
        [{ s.push .payment s.receiver sender s.receiver sealedHex with amount := some s.amount }]
      else []⟩
  | none => ⟨rows, [.paymentByReceiver pmKey, .paymentBySender bySenderKey], []⟩

def handleSelfStash (s : Sighting) (stash : SealedSelfStash) (rows : Rows) : Written :=
  let key : SelfStashKeyByOwner :=
    ⟨s.sender.getD default, padded 255 (stash.key.getD []), s.header.timestamp, s.header.hash, 1,
      s.txId⟩
  let rows := { rows with txIdToSelfStash := put rows.txIdToSelfStash s.txId stash.sealedHex }
  match s.sender with
  | some sender =>
    ⟨{ rows with selfStashByOwner := put rows.selfStashByOwner key () }, [],
      [{ s.push .selfStash sender sender default stash.sealedHex with
        aliasText := stash.key.bind parseSelfStashAlias }]⟩
  | none => ⟨rows, [.selfStashByOwner key], []⟩

/-- Whether the binding is new or the same, with the bindings after it. -/
def checkOrBind (bindings : Partition Bytes Bytes) (blindedGroupId pubkey : Bytes) :
    Bool × Partition Bytes Bytes :=
  match get bindings blindedGroupId with
  | none => (true, put bindings blindedGroupId pubkey)
  | some old => (old = pubkey, put bindings blindedGroupId old)

/-- Whether a group message is its sender's own, under an id that is free or bound to the same key;
with the bindings after that. -/
def admitGroupMessage (bindings : Partition Bytes Bytes) (sender : AddressPayload)
    (blindedGroupId senderPubkey : Bytes) : Bool × Partition Bytes Bytes :=
  if !sender.matchesXonlyPubkey senderPubkey then (false, bindings)
  else checkOrBind bindings blindedGroupId senderPubkey

/-- A message of another key than the sender's, or under an id of another key, is not stored. -/
def insertGroupMessage (s : Sighting) (sealedHex blindedGroupId senderPubkey : Bytes) (rows : Rows) :
    Written :=
  let key : GroupMessageKeyByBlindedGroupId :=
    ⟨blindedGroupId, s.header.timestamp, s.header.hash, 1, s.txId⟩
  let store (rows : Rows) : Rows := { rows with
    txIdToGroupMessage := put rows.txIdToGroupMessage s.txId sealedHex
    groupMessageByBlindedGroupId := fill rows.groupMessageByBlindedGroupId key s.sender }
  match s.sender with
  | none => ⟨store rows, [.groupMessageByBlindedGroupId key], []⟩
  | some sender =>
    let admitted := admitGroupMessage rows.groupSenderBinding sender blindedGroupId senderPubkey
    let rows := { rows with groupSenderBinding := admitted.2 }
    if admitted.1 then
      ⟨store rows, [], [{ s.push .groupMessage default sender default sealedHex with
        blindedGroupId := some blindedGroupId }]⟩
    else ⟨rows, [], []⟩

/-- `none` where a hex field does not decode. -/
def handleGroupMessage (s : Sighting) (gm : SealedGroupMessage) (rows : Rows) : Option Written :=
  (decodeFixedHex 32 gm.blindedGroupId).bind fun blindedGroupId =>
    (decodeFixedHex 32 gm.senderPub).map fun senderPubkey =>
      insertGroupMessage s gm.sealedHex blindedGroupId senderPubkey rows

def insertGroupControl (s : Sighting) (encryptedPayload : Bytes) (recipient : Option AddressPayload)
    (rows : Rows) : Written :=
  let key : GroupControlKeyBySender :=
    ⟨s.sender.getD default, s.header.timestamp, s.header.hash, 1, s.txId, recipient.getD default⟩
  let rows := { rows with
    txIdToGroupControl := put rows.txIdToGroupControl s.txId encryptedPayload }
  let addressed : Rows × List InsertionEntry :=
    match recipient with
    | none => (rows, [])
    | some recipient =>
      let recipientKey : GroupControlKeyByRecipient :=
        ⟨recipient, s.header.timestamp, s.header.hash, 1, s.txId⟩
      ({ rows with
          groupControlByRecipient := fill rows.groupControlByRecipient recipientKey s.sender },
        if s.sender.isNone then [.groupControlByRecipient recipientKey] else [])
  let rows := addressed.1
  match s.sender with
  | some sender =>
    ⟨{ rows with groupControlBySender := put rows.groupControlBySender key () }, addressed.2,
      [{ s.push .groupControl sender sender (recipient.getD default) encryptedPayload with
        groupControlRecipient := recipient }]⟩
  | none => ⟨rows, addressed.2 ++ [.groupControlBySender key], []⟩

def handleGroupControl (s : Sighting) (gc : SealedGroupControl) (rows : Rows) : Option Written :=
  match gc.recipientPubkey with
  | none => some (insertGroupControl s gc.encryptedPayload none rows)
  | some pubkey => (decodeFixedHex 32 pubkey).map fun key =>
      insertGroupControl s gc.encryptedPayload (some (.fromXonlyPubkey key)) rows

/-! ## Personal indexing -/

def personalAllows (env : Env) (sender : Option AddressPayload) (receiver : AddressPayload) : Bool :=
  env.personalAddresses = [] || receiver ∈ env.personalAddresses ||
    sender.any fun s => s ∈ env.personalAddresses

def personalFilteringActive (env : Env) : Bool :=
  env.personalAddresses ≠ [] || env.personalGroupIds ≠ []

def personalGroupMessageAllows (env : Env) (sender : Option AddressPayload) (id : Bytes) : Bool :=
  !personalFilteringActive env || id ∈ env.personalGroupIds ||
    sender.any fun s => s ∈ env.personalAddresses

/-- Whether a personal indexer keeps what an operation says. -/
def storeContent (env : Env) (s : Sighting) : SealedOperation → Bool
  | .groupMessageV1 gm =>
    match decodeFixedHex 32 gm.blindedGroupId with
    | some id => personalGroupMessageAllows env s.sender id
    | none => !personalFilteringActive env || s.sender.any fun a => a ∈ env.personalAddresses
  | .contextualMessageV1 cm =>
    personalAllows env s.sender s.receiver ||
      (cm.inboxTag.bind (decodeFixedHex 16)).any fun tag => tag ∈ env.personalInboxTags
  | _ => personalAllows env s.sender s.receiver

/-- What an operation writes, and what is left to be filled in. -/
def handleOperation (s : Sighting) (op : SealedOperation) (rows : Rows) : Option Written :=
  match op with
  | .sealedMessageOrSealedHandshakeVNone sealedHex => some (handleHandshake s sealedHex rows)
  | .sealedHandshakeV2 sealedHex => some (handleHandshakeV2 s sealedHex rows)
  | .contextualMessageV1 cm => some (handleContextualMessage s cm rows)
  | .paymentV1 sealedHex => some (handlePayment s sealedHex rows)
  | .selfStashV1 stash => some (handleSelfStash s stash rows)
  | .groupMessageV1 gm => handleGroupMessage s gm rows
  | .groupControlV1 gc => handleGroupControl s gc rows

/-- A handler fails on no operation whose fields decode. -/
theorem handleOperation_isSome (s : Sighting) {op : SealedOperation} (rows : Rows)
    (h : op.Decodes) : (handleOperation s op rows).isSome := by
  cases op with
  | groupMessageV1 gm =>
    obtain ⟨id, hid⟩ := Option.isSome_iff_exists.mp h.1
    obtain ⟨key, hkey⟩ := Option.isSome_iff_exists.mp h.2
    rw [handleOperation, handleGroupMessage, hid, Option.bind_some, hkey]
    rfl
  | groupControlV1 gc =>
    unfold handleOperation handleGroupControl
    dsimp only
    split
    · rfl
    · next pubkey hpubkey =>
      rw [Option.isSome_map]
      exact h pubkey hpubkey
  | _ => rfl

end KaChatIndexer.ChatRows

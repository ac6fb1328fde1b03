import KaChatIndexer.ChatKeys
import KaChatIndexer.ChatSlots

/-!
# Entries of the acceptance records

An acceptance record is a header and the entries of the rows that wait for a sender, one after the
other without their lengths. Reading them back takes the lengths from the layouts of the keys.
-/
namespace KaChatIndexer.ChatEntries
open ByteStrings ChatPayload ChatRows ChatBlocks ChatReads ChatKeys Fallible

inductive PartitionId where
  | metadata | blockCompactHeaders | blockDaaIndex | blockGaps | handshakeByReceiver
  | handshakeBySender | txIdToHandshake | contextualMessageBySender | paymentByReceiver
  | paymentBySender | txIdToPayment | acceptingBlockToTxIds | txIdToAcceptance | pendingSenders
  | selfStashByOwner | txIDToSelfStash | groupMessageByBlindedGroupId | txIdToGroupMessage
  | groupInviteByTag | txIdToGroupInvite | groupControlBySender | txIdToGroupControl
  | groupControlByRecipient | contextualMessageByInbox
  deriving DecidableEq

def PartitionId.code : PartitionId → UInt8
  | .metadata => 1
  | .blockCompactHeaders => 2
  | .blockDaaIndex => 3
  | .blockGaps => 4
  | .handshakeByReceiver => 5
  | .handshakeBySender => 6
  | .txIdToHandshake => 7
  | .contextualMessageBySender => 8
  | .paymentByReceiver => 9
  | .paymentBySender => 10
  | .txIdToPayment => 11
  | .acceptingBlockToTxIds => 12
  | .txIdToAcceptance => 13
  | .pendingSenders => 14
  | .selfStashByOwner => 15
  | .txIDToSelfStash => 16
  | .groupMessageByBlindedGroupId => 17
  | .txIdToGroupMessage => 18
  | .groupInviteByTag => 19
  | .txIdToGroupInvite => 20
  | .groupControlBySender => 21
  | .txIdToGroupControl => 22
  | .groupControlByRecipient => 23
  | .contextualMessageByInbox => 24

def PartitionId.all : List PartitionId :=
  [.metadata, .blockCompactHeaders, .blockDaaIndex, .blockGaps, .handshakeByReceiver,
    .handshakeBySender, .txIdToHandshake, .contextualMessageBySender, .paymentByReceiver,
    .paymentBySender, .txIdToPayment, .acceptingBlockToTxIds, .txIdToAcceptance, .pendingSenders,
    .selfStashByOwner, .txIDToSelfStash, .groupMessageByBlindedGroupId, .txIdToGroupMessage,
    .groupInviteByTag, .txIdToGroupInvite, .groupControlBySender, .txIdToGroupControl,
    .groupControlByRecipient, .contextualMessageByInbox]

def PartitionId.tryRead (c : UInt8) : Option PartitionId := all.find? (·.code = c)

theorem PartitionId.tryRead_code (id : PartitionId) : tryRead id.code = some id := by
  cases id <;> rfl

inductive Action where
  | updateValueSender | insertByKeySender
  deriving DecidableEq

def Action.code : Action → UInt8
  | .updateValueSender => 0
  | .insertByKeySender => 1

def Action.tryRead (c : UInt8) : Option Action :=
  [Action.updateValueSender, .insertByKeySender].find? (·.code = c)

theorem Action.tryRead_code (action : Action) : tryRead action.code = some action := by
  cases action <;> rfl

/-- An entry as its bytes are. -/
structure Entry where
  partitionId : PartitionId
  action : Action
  key : Bytes
  deriving DecidableEq

def Entry.asBytes (e : Entry) : Bytes := e.partitionId.code :: e.action.code :: e.key

/-- A panic ends the process; an error is handed on. -/
inductive EntryFault where
  | panic | error
  deriving DecidableEq

/-! ## The record -/

/-- `AcceptanceValueHeader::as_bytes`. -/
def headerBytes (acceptingBlockHash : Bytes32) (acceptingDaa : UInt64) : Bytes :=
  acceptingBlockHash.toList ++ leBytes 8 acceptingDaa.toNat

/-- `size_of::<AcceptanceValueHeader>()`. -/
def headerLen : ℕ := 40

abbrev Records := Partition AcceptanceKey Bytes

def insertWtx (p : Records) (key : AcceptanceKey) (entries : List Entry) : Records :=
  match get p key with
  | none => put p key (headerBytes zero32 0 ++ entries.flatMap Entry.asBytes)
  | some old => put p key (old ++ entries.flatMap Entry.asBytes)

inductive LookupOutput where
  | keyDoesNotExist | keyExistsNoEntries | keysExistsWithEntries
  deriving DecidableEq

/-- A value that is shorter than its header cannot be cut. -/
def updateAcceptanceWtx (p : Records) (key : AcceptanceKey) (acceptingBlockHash : Bytes32)
    (acceptanceDaa : UInt64) : Except EntryFault (Records × LookupOutput) :=
  match get p key with
  | none => .ok (p, .keyDoesNotExist)
  | some old =>
    if old.length < headerLen then .error .panic
    else .ok (put p key (headerBytes acceptingBlockHash acceptanceDaa ++ old.drop headerLen),
      if headerLen < old.length then .keysExistsWithEntries else .keyExistsNoEntries)

section
variable {σ : Type} (keyLenFn : PartitionId → Except EntryFault ℕ)
  (entryCbFn : Entry → σ → Except EntryFault σ)

/-- The loop of `resolve_entries_wtx`. Every entry takes a byte, so the length is fuel enough. -/
def resolveLoop : ℕ → Bytes → σ → Except EntryFault σ
  | _, [], s => .ok s
  | 0, _ :: _, _ => .error .panic
  | fuel + 1, id :: entries, s =>
    match PartitionId.tryRead id with
    | none => .error .error
    | some partitionId =>
      (keyLenFn partitionId).bind fun keyLen =>
        match entries with
        | [] => .error .panic
        | action :: entries =>
          match Action.tryRead action with
          | none => .error .error
          | some action =>
            if entries.length < keyLen then .error .panic
            else
              (entryCbFn ⟨partitionId, action, entries.take keyLen⟩ s).bind fun s =>
                resolveLoop fuel (entries.drop keyLen) s

/-- Whether there is a record, the records after, and what the callback made. -/
def resolveEntriesWtx (p : Records) (key : AcceptanceKey) (s : σ) :
    Except EntryFault (Bool × Records × σ) :=
  match get p key with
  | none => .ok (false, p, s)
  | some old =>
    if old.length < headerLen then .error .panic
    else
      (resolveLoop keyLenFn entryCbFn (old.drop headerLen).length (old.drop headerLen) s).map
        fun s => (true, put p key (old.take headerLen), s)

end

/-! ## The virtual processor -/

/-- The lengths of the keys; other partitions have no entries. -/
def keyLenFn : PartitionId → Except EntryFault ℕ
  | .handshakeByReceiver => .ok ChatKeys.handshakeByReceiver.size
  | .handshakeBySender => .ok ChatKeys.handshakeBySender.size
  | .contextualMessageBySender => .ok ChatKeys.contextualMessageBySender.size
  | .contextualMessageByInbox => .ok ChatKeys.contextualMessageByInbox.size
  | .paymentByReceiver => .ok ChatKeys.paymentByReceiver.size
  | .paymentBySender => .ok ChatKeys.paymentBySender.size
  | .selfStashByOwner => .ok ChatKeys.selfStashByOwner.size
  | .groupMessageByBlindedGroupId => .ok ChatKeys.groupMessageByBlindedGroupId.size
  | .groupControlByRecipient => .ok ChatKeys.groupControlByRecipient.size
  | .groupControlBySender => .ok ChatKeys.groupControlBySender.size
  | _ => .error .panic

/-- What a row that is filled in leaves, with the pushes so far. -/
def settled (pushes : List PushEvent) :
    Option (Rows × List PushEvent) → Except EntryFault (Rows × List PushEvent)
  | none => .error .error
  | some (rows, more) => .ok (rows, pushes ++ more)

/-- An arm of the callback: the action that it expects, and the key that it reads. -/
def arm {κ : Type} (layout : Layout κ) (expected : Action) (entryOf : κ → InsertionEntry)
    (r : Resolution) (e : Entry) (state : Rows × List PushEvent) :
    Except EntryFault (Rows × List PushEvent) :=
  if e.action ≠ expected then .error .panic
  else
    match layout.tryRead e.key with
    | none => .error .error
    | some key => settled state.2 (resolveEntry r (entryOf key) state.1)

def entryCbFn (r : Resolution) (e : Entry) :
    Rows × List PushEvent → Except EntryFault (Rows × List PushEvent) :=
  match e.partitionId with
  | .handshakeByReceiver =>
    arm ChatKeys.handshakeByReceiver .updateValueSender .handshakeByReceiver r e
  | .handshakeBySender =>
    arm ChatKeys.handshakeBySender .insertByKeySender .handshakeBySender r e
  | .contextualMessageBySender =>
    arm ChatKeys.contextualMessageBySender .insertByKeySender .contextualMessageBySender r e
  | .contextualMessageByInbox =>
    arm ChatKeys.contextualMessageByInbox .updateValueSender .contextualMessageByInbox r e
  | .paymentByReceiver => arm ChatKeys.paymentByReceiver .updateValueSender .paymentByReceiver r e
  | .paymentBySender => arm ChatKeys.paymentBySender .insertByKeySender .paymentBySender r e
  | .selfStashByOwner => arm ChatKeys.selfStashByOwner .insertByKeySender .selfStashByOwner r e
  | .groupMessageByBlindedGroupId =>
    arm ChatKeys.groupMessageByBlindedGroupId .updateValueSender .groupMessageByBlindedGroupId r e
  | .groupControlByRecipient =>
    arm ChatKeys.groupControlByRecipient .updateValueSender .groupControlByRecipient r e
  | .groupControlBySender =>
    arm ChatKeys.groupControlBySender .insertByKeySender .groupControlBySender r e
  | _ => fun _ => .error .panic

/-! ## The block processor -/

/-- An entry as the handlers push it. -/
def pushed : InsertionEntry → Entry
  | .handshakeByReceiver key =>
    ⟨.handshakeByReceiver, .updateValueSender, ChatKeys.handshakeByReceiver.asBytes key⟩
  | .handshakeBySender key =>
    ⟨.handshakeBySender, .insertByKeySender, ChatKeys.handshakeBySender.asBytes key⟩
  | .contextualMessageBySender key =>
    ⟨.contextualMessageBySender, .insertByKeySender,
      ChatKeys.contextualMessageBySender.asBytes key⟩
  | .contextualMessageByInbox key =>
    ⟨.contextualMessageByInbox, .updateValueSender, ChatKeys.contextualMessageByInbox.asBytes key⟩
  | .paymentByReceiver key =>
    ⟨.paymentByReceiver, .updateValueSender, ChatKeys.paymentByReceiver.asBytes key⟩
  | .paymentBySender key =>
    ⟨.paymentBySender, .insertByKeySender, ChatKeys.paymentBySender.asBytes key⟩
  | .selfStashByOwner key =>
    ⟨.selfStashByOwner, .insertByKeySender, ChatKeys.selfStashByOwner.asBytes key⟩
  | .groupMessageByBlindedGroupId key =>
    ⟨.groupMessageByBlindedGroupId, .updateValueSender,
      ChatKeys.groupMessageByBlindedGroupId.asBytes key⟩
  | .groupControlByRecipient key =>
    ⟨.groupControlByRecipient, .updateValueSender, ChatKeys.groupControlByRecipient.asBytes key⟩
  | .groupControlBySender key =>
    ⟨.groupControlBySender, .insertByKeySender, ChatKeys.groupControlBySender.asBytes key⟩

/-- The key's fields are of their types' lengths. -/
def Fits : InsertionEntry → Prop
  | .handshakeByReceiver key => ChatKeys.handshakeByReceiver.Fits key
  | .handshakeBySender key => ChatKeys.handshakeBySender.Fits key
  | .contextualMessageBySender key => ChatKeys.contextualMessageBySender.Fits key
  | .contextualMessageByInbox key => ChatKeys.contextualMessageByInbox.Fits key
  | .paymentByReceiver key => ChatKeys.paymentByReceiver.Fits key
  | .paymentBySender key => ChatKeys.paymentBySender.Fits key
  | .selfStashByOwner key => ChatKeys.selfStashByOwner.Fits key
  | .groupMessageByBlindedGroupId key => ChatKeys.groupMessageByBlindedGroupId.Fits key
  | .groupControlByRecipient key => ChatKeys.groupControlByRecipient.Fits key
  | .groupControlBySender key => ChatKeys.groupControlBySender.Fits key

theorem arm_pushed {κ : Type} {layout : Layout κ} {expected : Action}
    {entryOf : κ → InsertionEntry} {key : κ} (h : layout.Fits key) (r : Resolution)
    {id : PartitionId} (state : Rows × List PushEvent) :
    arm layout expected entryOf r ⟨id, expected, layout.asBytes key⟩ state =
      settled state.2 (resolveEntry r (entryOf key) state.1) := by
  rw [arm, if_neg (not_not.mpr rfl), Layout.tryRead_asBytes h]

/-- The callback fills in the row that was left. -/
theorem entryCb_pushed {entry : InsertionEntry} (h : Fits entry) (r : Resolution)
    (state : Rows × List PushEvent) :
    entryCbFn r (pushed entry) state = settled state.2 (resolveEntry r entry state.1) := by
  cases entry <;> exact arm_pushed h r state

/-! ## Records as they are meant -/

/-- An entry of a partition that rows wait in, with a key of its length. -/
structure SizedEntry extends Entry where
  sized : keyLenFn partitionId = .ok key.length

structure AcceptanceRecord where
  acceptingBlockHash : Bytes32
  acceptingDaa : UInt64
  entries : List SizedEntry

def AcceptanceRecord.asBytes (r : AcceptanceRecord) : Bytes :=
  headerBytes r.acceptingBlockHash r.acceptingDaa ++
    (r.entries.map (·.toEntry)).flatMap Entry.asBytes

/-- A call on the record of a key. -/
inductive Command where
  | insert (key : AcceptanceKey) (entries : List SizedEntry)
  | update (key : AcceptanceKey) (acceptingBlockHash : Bytes32) (acceptanceDaa : UInt64)

def Command.apply (p : Records) : Command → Except EntryFault Records
  | .insert key entries => .ok (insertWtx p key (entries.map (·.toEntry)))
  | .update key hash daa => (updateAcceptanceWtx p key hash daa).map (·.1)

def run (commands : List Command) (p : Records) : Except EntryFault Records :=
  commands.foldlM Command.apply p

/-- What the record of a key says after a call. -/
def Command.note (key : AcceptanceKey) (record : Option AcceptanceRecord) :
    Command → Option AcceptanceRecord
  | .insert key' entries =>
    if key = key' then
      some (record.elim ⟨zero32, 0, entries⟩ fun old =>
        { old with entries := old.entries ++ entries })
    else record
  | .update key' hash daa =>
    if key = key' then
      record.map fun old => { old with acceptingBlockHash := hash, acceptingDaa := daa }
    else record

def recordAt (key : AcceptanceKey) (commands : List Command) : Option AcceptanceRecord :=
  commands.foldl (Command.note key) none

/-- The entries that a call inserts under a key. -/
def Command.inserted (key : AcceptanceKey) : Command → List SizedEntry
  | .insert key' entries => if key = key' then entries else []
  | .update .. => []

def insertedAt (key : AcceptanceKey) (commands : List Command) : List SizedEntry :=
  commands.flatMap (Command.inserted key)

/-- Only insertions make a record, and its entries are theirs in their order. -/
theorem entries_recordAt (key : AcceptanceKey) (commands : List Command) :
    ((recordAt key commands).elim [] (·.entries)) = insertedAt key commands := by
  have hfold : ∀ record : Option AcceptanceRecord,
      ((commands.foldl (Command.note key) record).elim [] (·.entries)) =
        record.elim [] (·.entries) ++ insertedAt key commands := by
    induction commands with
    | nil => simp [insertedAt]
    | cons command commands ih =>
      intro record
      have hstep : (Command.note key record command).elim [] (·.entries) =
          record.elim [] (·.entries) ++ command.inserted key := by
        cases command with
        | insert key' entries =>
          by_cases hkey : key = key'
          · cases record <;> simp [Command.note, Command.inserted, hkey]
          · simp [Command.note, Command.inserted, hkey]
        | update key' hash daa =>
          by_cases hkey : key = key'
          · cases record <;> simp [Command.note, Command.inserted, hkey]
          · simp [Command.note, Command.inserted, hkey]
      rw [List.foldl_cons, ih, hstep, insertedAt, insertedAt, List.flatMap_cons,
        List.append_assoc]
  exact (hfold none).trans (List.nil_append _)

/-! ## The bytes are those of the records -/

@[simp] theorem length_headerBytes (hash : Bytes32) (daa : UInt64) :
    (headerBytes hash daa).length = headerLen := by
  rw [headerBytes, List.length_append, hash.toList_length, leBytes_length]
  rfl

theorem AcceptanceRecord.long (r : AcceptanceRecord) : ¬ r.asBytes.length < headerLen := by
  rw [asBytes, List.length_append, length_headerBytes]
  omega

theorem AcceptanceRecord.take (r : AcceptanceRecord) :
    r.asBytes.take headerLen = headerBytes r.acceptingBlockHash r.acceptingDaa := by
  rw [asBytes, List.take_left' (length_headerBytes _ _)]

theorem AcceptanceRecord.drop (r : AcceptanceRecord) :
    r.asBytes.drop headerLen = (r.entries.map (·.toEntry)).flatMap Entry.asBytes := by
  rw [asBytes, List.drop_left' (length_headerBytes _ _)]

/-- Each key holds the bytes of its record. -/
def Holds (p : Records) (records : AcceptanceKey → Option AcceptanceRecord) : Prop :=
  ∀ key, get p key = (records key).map AcceptanceRecord.asBytes

section
variable {p : Records} {records : AcceptanceKey → Option AcceptanceRecord}

theorem Holds.put (h : Holds p records) (key : AcceptanceKey) (record : AcceptanceRecord)
    {records' : AcceptanceKey → Option AcceptanceRecord} (hkey : records' key = some record)
    (hother : ∀ key', key' ≠ key → records' key' = records key') :
    Holds (put p key record.asBytes) records' := by
  intro key'
  rw [get_put]
  split
  · next heq =>
    rw [heq, hkey]
    rfl
  · next hne => rw [hother key' hne, h key']

theorem insertWtx_holds (h : Holds p records) (key : AcceptanceKey) (entries : List SizedEntry) :
    Holds (insertWtx p key (entries.map (·.toEntry)))
      (fun key' => Command.note key' (records key') (.insert key entries)) := by
  have hother : ∀ key', key' ≠ key →
      Command.note key' (records key') (.insert key entries) = records key' :=
    fun key' hne => if_neg hne
  unfold insertWtx
  cases hrecord : records key with
  | none =>
    have hget : get p key = none := by rw [h key, hrecord]; rfl
    rw [hget]
    refine h.put key ⟨zero32, 0, entries⟩ ?_ hother
    simp [Command.note, hrecord]
  | some old =>
    have hget : get p key = some old.asBytes := by rw [h key, hrecord]; rfl
    have hbytes : old.asBytes ++ (entries.map (·.toEntry)).flatMap Entry.asBytes =
        AcceptanceRecord.asBytes { old with entries := old.entries ++ entries } := by
      simp [AcceptanceRecord.asBytes]
    rw [hget]
    dsimp only
    rw [hbytes]
    refine h.put key _ ?_ hother
    simp [Command.note, hrecord]

/-- An update changes the header alone. -/
theorem updateAcceptanceWtx_holds (h : Holds p records) (key : AcceptanceKey) (hash : Bytes32)
    (daa : UInt64) : ∃ p' output, updateAcceptanceWtx p key hash daa = .ok (p', output) ∧
      Holds p' (fun key' => Command.note key' (records key') (.update key hash daa)) := by
  have hother : ∀ key', key' ≠ key →
      Command.note key' (records key') (.update key hash daa) = records key' :=
    fun key' hne => if_neg hne
  unfold updateAcceptanceWtx
  cases hrecord : records key with
  | none =>
    have hget : get p key = none := by rw [h key, hrecord]; rfl
    rw [hget]
    refine ⟨p, .keyDoesNotExist, rfl, fun key' => ?_⟩
    by_cases hkey : key' = key
    · rw [hkey, hget]
      simp [Command.note, hrecord]
    · exact (h key').trans (congrArg _ (hother key' hkey).symm)
  | some old =>
    have hget : get p key = some old.asBytes := by rw [h key, hrecord]; rfl
    have hbytes : headerBytes hash daa ++ old.asBytes.drop headerLen =
        AcceptanceRecord.asBytes { old with acceptingBlockHash := hash, acceptingDaa := daa } := by
      rw [old.drop]
      rfl
    rw [hget]
    dsimp only
    rw [if_neg old.long, hbytes]
    refine ⟨_, _, rfl, h.put key _ ?_ hother⟩
    simp [Command.note, hrecord]

theorem apply_holds (h : Holds p records) (command : Command) :
    ∃ p', command.apply p = .ok p' ∧
      Holds p' (fun key => Command.note key (records key) command) := by
  cases command with
  | insert key entries => exact ⟨_, rfl, insertWtx_holds h key entries⟩
  | update key hash daa =>
    obtain ⟨p', output, hupdate, hholds⟩ := updateAcceptanceWtx_holds h key hash daa
    exact ⟨p', by rw [Command.apply, hupdate]; rfl, hholds⟩

theorem run_holds (h : Holds p records) (commands : List Command) :
    ∃ p', run commands p = .ok p' ∧
      Holds p' (fun key => commands.foldl (Command.note key) (records key)) := by
  induction commands generalizing p records with
  | nil => exact ⟨p, rfl, h⟩
  | cons command commands ih =>
    obtain ⟨p', hstep, hholds⟩ := apply_holds h command
    obtain ⟨p'', hrun, hholds⟩ := ih hholds
    refine ⟨p'', ?_, hholds⟩
    rw [run, List.foldlM_cons, hstep]
    exact hrun

/-! ## Reading the entries back -/

variable {σ : Type} (cb : Entry → σ → Except EntryFault σ)

/-- The callback on one entry after the other. -/
def handOver (entries : List SizedEntry) (s : σ) : Except EntryFault σ :=
  entries.foldlM (fun s e => cb e.toEntry s) s

/-- The loop cuts the entries where they were joined. -/
theorem resolveLoop_entries (entries : List SizedEntry) {fuel : ℕ}
    (hfuel : ((entries.map (·.toEntry)).flatMap Entry.asBytes).length ≤ fuel) (s : σ) :
    resolveLoop keyLenFn cb fuel ((entries.map (·.toEntry)).flatMap Entry.asBytes) s =
      handOver cb entries s := by
  induction entries generalizing fuel s with
  | nil => cases fuel <;> rfl
  | cons e entries ih =>
    rw [List.map_cons, List.flatMap_cons] at hfuel ⊢
    obtain ⟨fuel, rfl⟩ : ∃ n, fuel = n + 1 := by
      refine ⟨fuel - 1, ?_⟩
      rw [List.length_append, Entry.asBytes] at hfuel
      simp only [List.length_cons] at hfuel
      omega
    have hlater : ((entries.map (·.toEntry)).flatMap Entry.asBytes).length ≤ fuel := by
      rw [List.length_append, Entry.asBytes] at hfuel
      simp only [List.length_cons] at hfuel
      omega
    have henough : ¬ (e.key ++ (entries.map (·.toEntry)).flatMap Entry.asBytes).length <
        e.key.length := by
      rw [List.length_append]
      omega
    have hlen : keyLenFn e.toEntry.partitionId = .ok e.key.length := e.sized
    rw [handOver, List.foldlM_cons, Entry.asBytes, List.cons_append, List.cons_append, resolveLoop,
      PartitionId.tryRead_code]
    dsimp only
    rw [hlen, Except.bind, Action.tryRead_code]
    dsimp only
    rw [if_neg henough, List.take_left' rfl, List.drop_left' rfl]
    cases cb e.toEntry s with
    | error fault => rfl
    | ok s' => exact ih hlater s'

theorem resolveEntriesWtx_holds (h : Holds p records) (key : AcceptanceKey) (s : σ) :
    resolveEntriesWtx keyLenFn cb p key s =
      match records key with
      | none => .ok (false, p, s)
      | some record => (handOver cb record.entries s).map fun s =>
          (true, put p key (AcceptanceRecord.asBytes { record with entries := [] }), s) := by
  unfold resolveEntriesWtx
  cases hrecord : records key with
  | none =>
    have hget : get p key = none := by rw [h key, hrecord]; rfl
    rw [hget]
  | some record =>
    have hget : get p key = some record.asBytes := by rw [h key, hrecord]; rfl
    have hempty : record.asBytes.take headerLen =
        AcceptanceRecord.asBytes { record with entries := [] } := by
      rw [record.take]
      exact (List.append_nil _).symm
    rw [hget]
    dsimp only
    rw [if_neg record.long, hempty, record.drop, resolveLoop_entries cb _ le_rfl]

end

/-! ## What the block processor pushes -/

/-- A sighting whose header and id are of their types' lengths. -/
structure Sized (s : Sighting) : Prop where
  time : s.header.timestamp < 2 ^ 64
  hash : s.header.hash.length = 32
  txId : s.txId.length = 32

theorem Sized.placed {s : Sighting} (h : Sized s) {version : ℕ} (hversion : version < 256) :
    Placed s.header.timestamp s.header.hash version s.txId :=
  ⟨h.time, h.hash, hversion, h.txId⟩

theorem length_hexDecode {t : KaText.Text} {b : Bytes} (h : KaText.hexDecode t = some b) :
    t.length = 2 * b.length := by
  fun_induction KaText.hexDecode t generalizing b with
  | case1 =>
    rw [← Option.some.inj h]
    rfl
  | case2 => cases h
  | case3 x y rest ih =>
    obtain ⟨m, -, h⟩ := Option.bind_eq_some_iff.mp h
    obtain ⟨n, -, h⟩ := Option.bind_eq_some_iff.mp h
    obtain ⟨bs, hbs, rfl⟩ := Option.map_eq_some_iff.mp h
    have hlength := ih hbs
    simp only [List.length_cons]
    omega

theorem length_decodeFixedHex {n : ℕ} {value b : Bytes} (h : decodeFixedHex n value = some b) :
    b.length = n := by
  unfold decodeFixedHex at h
  split at h
  · cases h
  · next hlength =>
    have hdecoded := length_hexDecode h
    rw [List.length_map] at hdecoded
    omega

section
variable {s : Sighting} {rows : Rows} {entry : InsertionEntry}

theorem insertHandshake_fits (h : Sized s) {version : ℕ} (hversion : version < 256)
    {sealedHex : Bytes} {order : InsertionEntry → InsertionEntry → List InsertionEntry}
    (horder : ∀ a b, ∀ e ∈ order a b, e = a ∨ e = b)
    (hmem : entry ∈ (insertHandshake version s sealedHex rows order).entries) : Fits entry := by
  unfold insertHandshake at hmem
  cases hsender : s.sender with
  | some sender => simp [hsender] at hmem
  | none =>
    simp only [hsender] at hmem
    rcases horder _ _ entry hmem with rfl | rfl
    · exact h.placed hversion
    · exact h.placed hversion

theorem handleContextualMessage_fits (h : Sized s) {cm : SealedContextualMessage}
    (hmem : entry ∈ (handleContextualMessage s cm rows).entries) : Fits entry := by
  have hfirst : Fits (.contextualMessageBySender ⟨s.sender.getD default, padded 16 cm.aliasBytes,
      s.header.timestamp, s.header.hash, s.receiver, 1, s.txId⟩) :=
    ⟨h.placed (show 1 < 256 by decide), length_padded _ _⟩
  unfold handleContextualMessage at hmem
  cases htag : cm.inboxTag.bind (decodeFixedHex 16) with
  | none =>
    cases hsender : s.sender with
    | some sender => simp [htag, hsender] at hmem
    | none =>
      simp only [htag, hsender, List.mem_singleton] at hmem
      rw [hmem, ← hsender]
      exact hfirst
  | some tag =>
    obtain ⟨tagHex, -, hdecoded⟩ := Option.bind_eq_some_iff.mp htag
    cases hsender : s.sender with
    | some sender => simp [htag, hsender] at hmem
    | none =>
      simp only [htag, hsender, List.mem_append, List.mem_singleton] at hmem
      rcases hmem with rfl | rfl
      · rw [← hsender]
        exact hfirst
      · exact ⟨h.time, h.txId, length_decodeFixedHex hdecoded⟩

theorem handlePayment_fits (h : Sized s) {sealedHex : Bytes}
    (hmem : entry ∈ (handlePayment s sealedHex rows).entries) : Fits entry := by
  unfold handlePayment at hmem
  cases hsender : s.sender with
  | some sender => simp [hsender] at hmem
  | none =>
    simp only [hsender, List.mem_cons, List.not_mem_nil, or_false] at hmem
    rcases hmem with rfl | rfl
    · exact h.placed (show 0 < 256 by decide)
    · exact h.placed (show 0 < 256 by decide)

theorem handleSelfStash_fits (h : Sized s) {stash : SealedSelfStash}
    (hmem : entry ∈ (handleSelfStash s stash rows).entries) : Fits entry := by
  unfold handleSelfStash at hmem
  cases hsender : s.sender with
  | some sender => simp [hsender] at hmem
  | none =>
    simp only [hsender, List.mem_singleton] at hmem
    rw [hmem]
    exact ⟨h.placed (show 1 < 256 by decide), length_padded _ _⟩

theorem insertGroupMessage_fits (h : Sized s) {sealedHex id pubkey : Bytes} (hid : id.length = 32)
    (hmem : entry ∈ (insertGroupMessage s sealedHex id pubkey rows).entries) : Fits entry := by
  unfold insertGroupMessage at hmem
  cases hsender : s.sender with
  | some sender =>
    simp only [hsender] at hmem
    split at hmem <;> cases hmem
  | none =>
    simp only [hsender, List.mem_singleton] at hmem
    rw [hmem]
    exact ⟨h.placed (show 1 < 256 by decide), hid⟩

theorem insertGroupControl_fits (h : Sized s) {encryptedPayload : Bytes}
    {recipient : Option AddressPayload}
    (hmem : entry ∈ (insertGroupControl s encryptedPayload recipient rows).entries) :
    Fits entry := by
  unfold insertGroupControl at hmem
  cases hsender : s.sender with
  | some sender => cases recipient <;> simp [hsender] at hmem
  | none =>
    cases recipient <;>
      simp only [hsender, Option.isNone_none, if_true, List.mem_append, List.mem_singleton,
        List.not_mem_nil, false_or] at hmem
    · rw [hmem]
      exact h.placed (show 1 < 256 by decide)
    · rcases hmem with rfl | rfl
      · exact h.placed (show 1 < 256 by decide)
      · exact h.placed (show 1 < 256 by decide)

/-- The keys that wait are of their types' lengths. -/
theorem handleOperation_fits (h : Sized s) {op : SealedOperation} {w : Written}
    (hw : handleOperation s op rows = some w) (hmem : entry ∈ w.entries) : Fits entry := by
  cases op with
  | sealedMessageOrSealedHandshakeVNone sealedHex =>
    obtain rfl := Option.some.inj hw
    exact insertHandshake_fits h (by decide) (by simp) hmem
  | sealedHandshakeV2 sealedHex =>
    obtain rfl := Option.some.inj hw
    exact insertHandshake_fits h (by decide) (by simp [or_comm]) hmem
  | contextualMessageV1 cm =>
    obtain rfl := Option.some.inj hw
    exact handleContextualMessage_fits h hmem
  | paymentV1 sealedHex =>
    obtain rfl := Option.some.inj hw
    exact handlePayment_fits h hmem
  | selfStashV1 stash =>
    obtain rfl := Option.some.inj hw
    exact handleSelfStash_fits h hmem
  | groupMessageV1 gm =>
    obtain ⟨id, pub, hid, -, rfl⟩ := ChatSlots.handleGroupMessage_some hw
    exact insertGroupMessage_fits h (length_decodeFixedHex hid) hmem
  | groupControlV1 gc =>
    obtain ⟨recipient, -, rfl⟩ := ChatSlots.handleGroupControl_some hw
    exact insertGroupControl_fits h hmem

end

/-- An entry that some handler leaves. -/
def Pushed (e : Entry) : Prop :=
  ∃ s op rows w, Sized s ∧ handleOperation s op rows = some w ∧ ∃ entry ∈ w.entries, e = pushed entry

theorem entryCb_noPanic {e : Entry} (h : Pushed e) (r : Resolution)
    (state : Rows × List PushEvent) : entryCbFn r e state ≠ .error .panic := by
  obtain ⟨s, op, rows, w, hsized, hw, entry, hmem, rfl⟩ := h
  rw [entryCb_pushed (handleOperation_fits hsized hw hmem)]
  cases resolveEntry r entry state.1 with
  | none => simp [settled]
  | some result => simp [settled]

theorem handOver_noPanic {r : Resolution} {entries : List SizedEntry}
    (h : ∀ e ∈ entries, Pushed e.toEntry) (state : Rows × List PushEvent) :
    handOver (entryCbFn r) entries state ≠ .error .panic := by
  induction entries generalizing state with
  | nil => simp [handOver, pure, Except.pure]
  | cons e entries ih =>
    have hfirst := entryCb_noPanic (h e List.mem_cons_self) r state
    rw [handOver, List.foldlM_cons]
    cases hcb : entryCbFn r e.toEntry state with
    | error fault =>
      rw [hcb] at hfirst
      exact hfirst
    | ok state' => exact ih (fun e' he' => h e' (List.mem_cons_of_mem e he')) state'

/-- Whatever calls come before: the callback gets the entries that were inserted under the key, in
their order, and what stays is the header. An update leaves the entries, and those of the block
processor end no process. -/
theorem entries_resolved (commands : List Command) : ∃ p, run commands [] = .ok p ∧
    (∀ (key : AcceptanceKey) {σ : Type} (cb : Entry → σ → Except EntryFault σ) (s : σ),
      match get p key with
      | none => insertedAt key commands = [] ∧
        resolveEntriesWtx keyLenFn cb p key s = .ok (false, p, s)
      | some value => resolveEntriesWtx keyLenFn cb p key s =
        (handOver cb (insertedAt key commands) s).map fun s =>
          (true, put p key (value.take headerLen), s)) ∧
    (∀ key hash daa, ∃ p' output, updateAcceptanceWtx p key hash daa = .ok (p', output) ∧
      ∀ key', (get p' key').map (·.drop headerLen) = (get p key').map (·.drop headerLen)) ∧
    ∀ key, (∀ e ∈ insertedAt key commands, Pushed e.toEntry) → ∀ r state,
      resolveEntriesWtx keyLenFn (entryCbFn r) p key state ≠ .error .panic := by
  have hempty : Holds [] fun _ => none := fun _ => rfl
  obtain ⟨p, hrun, hholds⟩ := run_holds hempty commands
  have hentries := fun key => entries_recordAt key commands
  have hresolve : ∀ (key : AcceptanceKey) {σ : Type} (cb : Entry → σ → Except EntryFault σ) (s : σ),
      match get p key with
      | none => insertedAt key commands = [] ∧
        resolveEntriesWtx keyLenFn cb p key s = .ok (false, p, s)
      | some value => resolveEntriesWtx keyLenFn cb p key s =
        (handOver cb (insertedAt key commands) s).map fun s =>
          (true, put p key (value.take headerLen), s) := by
    intro key σ cb s
    have hread := resolveEntriesWtx_holds cb hholds key s
    have hget := hholds key
    rw [← hentries key, recordAt]
    cases hrecord : commands.foldl (Command.note key) none with
    | none =>
      simp only [hrecord] at hread hget
      rw [hget]
      exact ⟨rfl, hread⟩
    | some record =>
      simp only [hrecord] at hread hget
      rw [hget]
      have hheader : record.asBytes.take headerLen =
          AcceptanceRecord.asBytes { record with entries := [] } := by
        rw [record.take]
        exact (List.append_nil _).symm
      simp only [Option.map_some]
      rw [hheader]
      exact hread
  refine ⟨p, hrun, hresolve, ?_, ?_⟩
  · intro key hash daa
    obtain ⟨p', output, hupdate, hholds'⟩ := updateAcceptanceWtx_holds hholds key hash daa
    refine ⟨p', output, hupdate, fun key' => ?_⟩
    rw [hholds' key', hholds key']
    dsimp only
    by_cases hkey : key' = key
    · cases commands.foldl (Command.note key') none with
      | none => simp [Command.note, hkey]
      | some old => simp [Command.note, hkey, AcceptanceRecord.drop]
    · rw [show Command.note key' _ (.update key hash daa) = _ from if_neg hkey]
  · intro key hpushed r state
    have hread := hresolve key (entryCbFn r) state
    cases hget : get p key with
    | none =>
      simp only [hget] at hread
      rw [hread.2]
      simp
    | some value =>
      simp only [hget] at hread
      rw [hread]
      have hhand := handOver_noPanic hpushed (r := r) state
      cases hstate : handOver (entryCbFn r) (insertedAt key commands) state with
      | error fault =>
        rw [hstate] at hhand
        intro heq
        exact hhand (congrArg Except.error (Except.error.inj heq))
      | ok state' => simp [Except.map]

end KaChatIndexer.ChatEntries

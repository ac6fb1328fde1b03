import KaChatIndexer.ChatReads
import KaChatIndexer.OrderedKeys

/-!
# Keys in the store

The bytes of the keys that messages stand under: their fields one after the other, each of a fixed
length, with the block time big-endian.
-/
namespace KaChatIndexer.ChatKeys
open ByteStrings ChatPayload ChatRows ChatReads OrderedKeys

/-! ## Fields -/

/-- `to_be_bytes` of a `u64`. -/
def u64be (v : ℕ) : Bytes := (bigEndian 256 8 v).map UInt8.ofNat

def ofU64be (b : Bytes) : ℕ := value 256 (ordinals b)

theorem ordinals_u64be (v : ℕ) : ordinals (u64be v) = bigEndian 256 8 v := by
  have hall : ∀ n, ∀ d ∈ bigEndian 256 n v, d < 256 := by
    intro n
    induction n with
    | zero => simp [bigEndian]
    | succ n ih =>
      intro d hd
      rcases List.mem_cons.mp hd with rfl | hd
      · exact Nat.mod_lt _ (by decide)
      · exact ih d hd
  rw [ordinals, u64be, List.map_map]
  refine (List.map_congr_left fun d hd => ?_).trans (List.map_id _)
  exact UInt8.toNat_ofNat_of_lt (hall 8 d hd)

@[simp] theorem length_u64be (v : ℕ) : (u64be v).length = 8 := by
  rw [u64be, List.length_map, length_bigEndian]

theorem ofU64be_u64be {v : ℕ} (h : v < 2 ^ 64) : ofU64be (u64be v) = v := by
  rw [ofU64be, ordinals_u64be, value_bigEndian]
  exact Nat.mod_eq_of_lt h

def addressBytes (a : AddressPayload) : Bytes := a.inverseVersion :: a.payload.toList

@[simp] theorem length_addressBytes (a : AddressPayload) : (addressBytes a).length = 34 := by
  simp [addressBytes]

def readAddress : Bytes → Option AddressPayload
  | [] => none
  | v :: payload => (tryInto 33 payload).map fun payload => ⟨v, payload⟩

@[simp] theorem readAddress_bytes (a : AddressPayload) : readAddress (addressBytes a) = some a := by
  have hlength : a.payload.toList.length = 33 := a.payload.toList_length
  simp [readAddress, addressBytes, tryInto, hlength]

def versionByte (v : ℕ) : Bytes := [UInt8.ofNat v]

@[simp] theorem length_padded (n : ℕ) (b : Bytes) : (padded n b).length = n := by
  simp [padded]

/-- The fields of the given sizes; nothing is left over. -/
def cut : List ℕ → Bytes → Option (List Bytes)
  | [], [] => some []
  | [], _ :: _ => none
  | n :: sizes, b =>
    if n ≤ b.length then (cut sizes (b.drop n)).map (b.take n :: ·) else none

theorem cut_flatten (fields : List Bytes) : cut (fields.map List.length) fields.flatten = some fields := by
  induction fields with
  | nil => rfl
  | cons field fields ih => simp [cut, ih]

/-! ## Layouts -/

/-- How a `#[repr(C)]` key lies in memory: its leading fields, the block time, and the others.
`Fits` says that the fields are of their types' lengths. -/
structure Layout (κ : Type) where
  leadSizes : List ℕ
  restSizes : List ℕ
  lead : κ → List Bytes
  time : κ → ℕ
  rest : κ → List Bytes
  ofFields : List Bytes → Option κ
  Fits : κ → Prop
  lead_sizes : ∀ {k}, Fits k → (lead k).map List.length = leadSizes
  rest_sizes : ∀ {k}, Fits k → (rest k).map List.length = restSizes
  time_lt : ∀ {k}, Fits k → time k < 2 ^ 64
  ofFields_fields : ∀ {k}, Fits k → ofFields (lead k ++ u64be (time k) :: rest k) = some k
  rest_pos : 0 < restSizes.sum

namespace Layout
variable {κ : Type} (layout : Layout κ)

/-- `size_of`. -/
def size : ℕ := layout.leadSizes.sum + (8 + layout.restSizes.sum)

def leadBytes (k : κ) : Bytes := (layout.lead k).flatten

def restBytes (k : κ) : Bytes := (layout.rest k).flatten

/-- `as_bytes`. -/
def asBytes (k : κ) : Bytes := layout.leadBytes k ++ (u64be (layout.time k) ++ layout.restBytes k)

/-- `try_read_from_bytes` and `try_ref_from_bytes`. -/
def tryRead (b : Bytes) : Option κ :=
  (cut (layout.leadSizes ++ 8 :: layout.restSizes) b).bind layout.ofFields

variable {layout}

theorem length_leadBytes {k : κ} (h : layout.Fits k) :
    (layout.leadBytes k).length = layout.leadSizes.sum := by
  rw [leadBytes, List.length_flatten, layout.lead_sizes h]

theorem tryRead_asBytes {k : κ} (h : layout.Fits k) :
    layout.tryRead (layout.asBytes k) = some k := by
  have hsizes : layout.leadSizes ++ 8 :: layout.restSizes =
      (layout.lead k ++ u64be (layout.time k) :: layout.rest k).map List.length := by
    rw [List.map_append, List.map_cons, layout.lead_sizes h, layout.rest_sizes h, length_u64be]
  have hflatten : layout.asBytes k =
      (layout.lead k ++ u64be (layout.time k) :: layout.rest k).flatten := by
    rw [List.flatten_append, List.flatten_cons]
    rfl
  rw [tryRead, hsizes, hflatten, cut_flatten, Option.bind_some, layout.ofFields_fields h]

theorem asBytes_inj {k k' : κ} (h : layout.Fits k) (h' : layout.Fits k')
    (heq : layout.asBytes k = layout.asBytes k') : k = k' := by
  have hread := tryRead_asBytes h
  rw [heq, tryRead_asBytes h'] at hread
  exact (Option.some.inj hread).symm

end Layout

/-! ## The keys -/

/-- Fields that every key of a message has. -/
structure Placed (blockTime : ℕ) (blockHash : Hash) (version : ℕ) (txId : TxId) : Prop where
  time : blockTime < 2 ^ 64
  hash : blockHash.length = 32
  version : version < 256
  txId : txId.length = 32

section
variable {κ : Type} (blockTime : κ → ℕ) (blockHash : κ → Hash) (version : κ → ℕ) (txId : κ → TxId)

/-- A key that starts with one address, and has no other. -/
def byOne (make : AddressPayload → ℕ → Hash → ℕ → TxId → κ) (address : κ → AddressPayload)
    (hmake : ∀ k, make (address k) (blockTime k) (blockHash k) (version k) (txId k) = k) :
    Layout κ where
  leadSizes := [34]
  restSizes := [32, 1, 32]
  lead k := [addressBytes (address k)]
  time := blockTime
  rest k := [blockHash k, versionByte (version k), txId k]
  ofFields
    | [address, blockTime, blockHash, [version], txId] =>
      (readAddress address).map fun address =>
        make address (ofU64be blockTime) blockHash version.toNat txId
    | _ => none
  Fits k := Placed (blockTime k) (blockHash k) (version k) (txId k)
  lead_sizes := by simp
  rest_sizes h := by simp [versionByte, h.hash, h.txId]
  time_lt h := h.time
  ofFields_fields {k} h := by
    simp [versionByte, ofU64be_u64be h.time, Nat.mod_eq_of_lt h.version, hmake k]
  rest_pos := by decide

/-- A key that starts with the sender, and has the receiver after the hash. -/
def byTwo (make : AddressPayload → ℕ → Hash → AddressPayload → ℕ → TxId → κ)
    (sender receiver : κ → AddressPayload)
    (hmake : ∀ k, make (sender k) (blockTime k) (blockHash k) (receiver k) (version k) (txId k) = k) :
    Layout κ where
  leadSizes := [34]
  restSizes := [32, 34, 1, 32]
  lead k := [addressBytes (sender k)]
  time := blockTime
  rest k := [blockHash k, addressBytes (receiver k), versionByte (version k), txId k]
  ofFields
    | [sender, blockTime, blockHash, receiver, [version], txId] =>
      (readAddress sender).bind fun sender => (readAddress receiver).map fun receiver =>
        make sender (ofU64be blockTime) blockHash receiver version.toNat txId
    | _ => none
  Fits k := Placed (blockTime k) (blockHash k) (version k) (txId k)
  lead_sizes := by simp
  rest_sizes h := by simp [versionByte, h.hash, h.txId]
  time_lt h := h.time
  ofFields_fields {k} h := by
    simp [versionByte, ofU64be_u64be h.time, Nat.mod_eq_of_lt h.version, hmake k]
  rest_pos := by decide

end

def handshakeByReceiver : Layout HandshakeKeyByReceiver :=
  byOne (·.blockTime) (·.blockHash) (·.version) (·.txId) .mk (·.receiver) fun _ => rfl

def handshakeBySender : Layout HandshakeKeyBySender :=
  byTwo (·.blockTime) (·.blockHash) (·.version) (·.txId) .mk (·.sender) (·.receiver) fun _ => rfl

def paymentByReceiver : Layout PaymentKeyByReceiver :=
  byOne (·.blockTime) (·.blockHash) (·.version) (·.txId) .mk (·.receiver) fun _ => rfl

def paymentBySender : Layout PaymentKeyBySender :=
  byTwo (·.blockTime) (·.blockHash) (·.version) (·.txId) .mk (·.sender) (·.receiver) fun _ => rfl

def groupControlByRecipient : Layout GroupControlKeyByRecipient :=
  byOne (·.blockTime) (·.blockHash) (·.version) (·.txId) .mk (·.recipient) fun _ => rfl

def contextualMessageBySender : Layout ContextualMessageBySenderKey where
  leadSizes := [34, 16]
  restSizes := [32, 34, 1, 32]
  lead k := [addressBytes k.sender, k.aliasBytes]
  time := (·.blockTime)
  rest k := [k.blockHash, addressBytes k.receiver, versionByte k.version, k.txId]
  ofFields
    | [sender, aliasBytes, blockTime, blockHash, receiver, [version], txId] =>
      (readAddress sender).bind fun sender => (readAddress receiver).map fun receiver =>
        ⟨sender, aliasBytes, ofU64be blockTime, blockHash, receiver, version.toNat, txId⟩
    | _ => none
  Fits k := Placed k.blockTime k.blockHash k.version k.txId ∧ k.aliasBytes.length = 16
  lead_sizes h := by simp [h.2]
  rest_sizes h := by simp [versionByte, h.1.hash, h.1.txId]
  time_lt h := h.1.time
  ofFields_fields h := by
    simp [versionByte, ofU64be_u64be h.1.time, Nat.mod_eq_of_lt h.1.version]
  rest_pos := by decide

def contextualMessageByInbox : Layout ContextualMessageByInboxKey where
  leadSizes := [16]
  restSizes := [32]
  lead k := [k.inboxTag]
  time := (·.blockTime)
  rest k := [k.txId]
  ofFields
    | [inboxTag, blockTime, txId] => some ⟨inboxTag, ofU64be blockTime, txId⟩
    | _ => none
  Fits k := k.blockTime < 2 ^ 64 ∧ k.txId.length = 32 ∧ k.inboxTag.length = 16
  lead_sizes h := by simp [h.2.2]
  rest_sizes h := by simp [h.2.1]
  time_lt h := h.1
  ofFields_fields h := by simp [ofU64be_u64be h.1]
  rest_pos := by decide

def selfStashByOwner : Layout SelfStashKeyByOwner where
  leadSizes := [34, 255]
  restSizes := [32, 1, 32]
  lead k := [addressBytes k.owner, k.scope]
  time := (·.blockTime)
  rest k := [k.blockHash, versionByte k.version, k.txId]
  ofFields
    | [owner, scope, blockTime, blockHash, [version], txId] =>
      (readAddress owner).map fun owner =>
        ⟨owner, scope, ofU64be blockTime, blockHash, version.toNat, txId⟩
    | _ => none
  Fits k := Placed k.blockTime k.blockHash k.version k.txId ∧ k.scope.length = 255
  lead_sizes h := by simp [h.2]
  rest_sizes h := by simp [versionByte, h.1.hash, h.1.txId]
  time_lt h := h.1.time
  ofFields_fields h := by
    simp [versionByte, ofU64be_u64be h.1.time, Nat.mod_eq_of_lt h.1.version]
  rest_pos := by decide

def groupMessageByBlindedGroupId : Layout GroupMessageKeyByBlindedGroupId where
  leadSizes := [32]
  restSizes := [32, 1, 32]
  lead k := [k.blindedGroupId]
  time := (·.blockTime)
  rest k := [k.blockHash, versionByte k.version, k.txId]
  ofFields
    | [blindedGroupId, blockTime, blockHash, [version], txId] =>
      some ⟨blindedGroupId, ofU64be blockTime, blockHash, version.toNat, txId⟩
    | _ => none
  Fits k := Placed k.blockTime k.blockHash k.version k.txId ∧ k.blindedGroupId.length = 32
  lead_sizes h := by simp [h.2]
  rest_sizes h := by simp [versionByte, h.1.hash, h.1.txId]
  time_lt h := h.1.time
  ofFields_fields h := by
    simp [versionByte, ofU64be_u64be h.1.time, Nat.mod_eq_of_lt h.1.version]
  rest_pos := by decide

def groupControlBySender : Layout GroupControlKeyBySender where
  leadSizes := [34]
  restSizes := [32, 1, 32, 34]
  lead k := [addressBytes k.sender]
  time := (·.blockTime)
  rest k := [k.blockHash, versionByte k.version, k.txId, addressBytes k.recipient]
  ofFields
    | [sender, blockTime, blockHash, [version], txId, recipient] =>
      (readAddress sender).bind fun sender => (readAddress recipient).map fun recipient =>
        ⟨sender, ofU64be blockTime, blockHash, version.toNat, txId, recipient⟩
    | _ => none
  Fits k := Placed k.blockTime k.blockHash k.version k.txId
  lead_sizes := by simp
  rest_sizes h := by simp [versionByte, h.hash, h.txId]
  time_lt h := h.time
  ofFields_fields h := by
    simp [versionByte, ofU64be_u64be h.time, Nat.mod_eq_of_lt h.version]
  rest_pos := by decide

end KaChatIndexer.ChatKeys

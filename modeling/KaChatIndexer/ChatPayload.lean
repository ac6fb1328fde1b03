import Mathlib.Tactic.Common
import KaChatIndexer.KaText

/-!
# Sealed operations

What the chat indexer reads from a transaction's payload: a handshake, a message, a payment, a
stash, or one of the two group operations.
-/
namespace KaChatIndexer.ChatPayload
open ByteStrings

structure SealedContextualMessage where
  aliasBytes : Bytes
  sealedHex : Bytes
  inboxTag : Option Bytes
  deriving DecidableEq

structure SealedSelfStash where
  key : Option Bytes
  sealedHex : Bytes
  deriving DecidableEq

/-- `sealedHex` is the whole of the fields, as they came. -/
structure SealedGroupMessage where
  blindedGroupId : Bytes
  senderPub : Bytes
  sealedHex : Bytes
  deriving DecidableEq

structure SealedGroupControl where
  recipientPubkey : Option Bytes
  encryptedPayload : Bytes
  deriving DecidableEq

inductive SealedOperation where
  | sealedMessageOrSealedHandshakeVNone (sealedHex : Bytes)
  | contextualMessageV1 (cm : SealedContextualMessage)
  | paymentV1 (sealedHex : Bytes)
  | selfStashV1 (stash : SealedSelfStash)
  | sealedHandshakeV2 (sealedHex : Bytes)
  | groupMessageV1 (gm : SealedGroupMessage)
  | groupControlV1 (gc : SealedGroupControl)
  deriving DecidableEq

/-! ## Fields -/

def colon : UInt8 := 0x3a

/-- What stands before the first colon, and what stands after it. -/
def splitOnce (b : Bytes) : Option (Bytes × Bytes) :=
  if colon ∈ b then some (b.takeWhile (· ≠ colon), (b.dropWhile (· ≠ colon)).drop 1) else none

def isLowerHexDigit (c : UInt8) : Bool := isDigit c || (0x61 ≤ c && c ≤ 0x66)

def isHexDigit (c : UInt8) : Bool := isLowerHexDigit c || (0x41 ≤ c && c ≤ 0x46)

def isFixedHex (value : Bytes) (byteLen : ℕ) : Bool :=
  value.length == byteLen * 2 && value.all isHexDigit

def isLowercaseHex (value : Bytes) (byteLen : ℕ) : Bool :=
  value.length == byteLen * 2 && value.all isLowerHexDigit

def isNonemptyLowercaseHex (value : Bytes) : Bool :=
  value ≠ [] && value.length % 2 == 0 && value.all isLowerHexDigit

def isNonemptyHex (value : Bytes) : Bool :=
  value ≠ [] && value.length % 2 == 0 && value.all isHexDigit

/-- `decode_fixed_hex::<N>`. -/
def decodeFixedHex (n : ℕ) (value : Bytes) : Option Bytes :=
  if value.length ≠ n * 2 then none
  else KaText.hexDecode (value.map fun c => Char.ofNat c.toNat)

/-! ## Operations -/

/-- Of a tip, the sealed payment record. -/
def parseTip (remaining : Bytes) : Option SealedOperation :=
  match remaining.splitOn colon with
  | [pubkey, signature, postId, authorPubkey, sealedHex] =>
    if pubkey = [] || signature = [] || !isFixedHex postId 32 ||
        !(isFixedHex authorPubkey 33 || isFixedHex authorPubkey 32) ||
        !isNonemptyLowercaseHex sealedHex then none
    else some (.paymentV1 sealedHex)
  | _ => none

def parseComm (remaining : Bytes) : Option SealedOperation :=
  (splitOnce remaining).map fun (aliasBytes, sealedHex) =>
    .contextualMessageV1 ⟨aliasBytes, sealedHex, none⟩

def parseDm (remaining : Bytes) : Option SealedOperation :=
  (splitOnce remaining).bind fun (inboxTag, rest) =>
    if !isLowercaseHex inboxTag 16 then none
    else
      (splitOnce rest).map fun (aliasBytes, sealedHex) =>
        .contextualMessageV1 ⟨aliasBytes, sealedHex, some inboxTag⟩

def parseSelfStash (remaining : Bytes) : SealedOperation :=
  match splitOnce remaining with
  | some (key, sealedHex) => .selfStashV1 ⟨some key, sealedHex⟩
  | none => .selfStashV1 ⟨none, remaining⟩

def parseGcomm (remaining : Bytes) : Option SealedOperation :=
  match remaining.splitOn colon with
  | [blindedGroupId, epoch, senderId, senderPub, msgId, ciphertext, signature] =>
    if !isFixedHex blindedGroupId 32 || !((parseDigits epoch).any (· < 2 ^ 64)) ||
        !isFixedHex senderId 32 || !isFixedHex senderPub 32 || !isFixedHex msgId 24 ||
        !isNonemptyHex ciphertext || !isFixedHex signature 64 then none
    else some (.groupMessageV1 ⟨blindedGroupId, senderPub, remaining⟩)
  | _ => none

def parseGctl (remaining : Bytes) : Option SealedOperation :=
  match remaining.splitOn colon with
  | [encryptedPayload] =>
    if isNonemptyHex encryptedPayload then some (.groupControlV1 ⟨none, encryptedPayload⟩) else none
  | [recipientPubkey, encryptedPayload] =>
    if isFixedHex recipientPubkey 32 && isNonemptyHex encryptedPayload then
      some (.groupControlV1 ⟨some recipientPubkey, encryptedPayload⟩)
    else none
  | _ => none

/-- The operations of version 1, by the word before the first colon; others are other services'. -/
def parseVersion1 (isKchat : Bool) (body : Bytes) : Option SealedOperation :=
  if let some sealedHex := stripPrefix (ascii "pay:") body then some (.paymentV1 sealedHex)
  else if let some sealedHex := stripPrefix (ascii "payment:") body then some (.paymentV1 sealedHex)
  else if let some remaining := stripPrefix (ascii "tip:") body then
    if isKchat then parseTip remaining else none
  else if let some sealedHex := stripPrefix (ascii "handshake:") body then
    some (.sealedHandshakeV2 sealedHex)
  else if let some remaining := stripPrefix (ascii "comm:") body then parseComm remaining
  else if let some remaining := stripPrefix (ascii "dm:") body then parseDm remaining
  else if let some remaining := stripPrefix (ascii "self_stash:") body then
    some (parseSelfStash remaining)
  else if let some remaining := stripPrefix (ascii "gcomm:") body then parseGcomm remaining
  else if let some remaining := stripPrefix (ascii "gctl:") body then parseGctl remaining
  else none

/-- The prefix of today, or the one of before, which is only read. -/
def parseSealedOperation (payload : Bytes) : Option SealedOperation :=
  let kchat := stripPrefix (ascii "kchat:") payload
  (kchat.or (stripPrefix (ascii "ciph_msg:") payload)).bind fun body =>
    if body = [] then none
    else
      match stripPrefix (ascii "1:") body with
      | none => some (.sealedMessageOrSealedHandshakeVNone body)
      | some body => parseVersion1 kchat.isSome body

/-! ## Hex fields decode -/

theorem hexDigit_isSome {c : UInt8} (h : isHexDigit c = true) :
    (KaText.hexDigit (Char.ofNat c.toNat)).isSome := by
  have hall : ∀ n < 256, isHexDigit (UInt8.ofNat n) = true →
      (KaText.hexDigit (Char.ofNat n)).isSome := by decide +kernel
  exact hall c.toNat c.toNat_lt (by rwa [UInt8.ofNat_toNat])

/-- A field that passes its check decodes. -/
theorem decode_isSome {value : Bytes} {n : ℕ} (h : isFixedHex value n = true) :
    (decodeFixedHex n value).isSome := by
  obtain ⟨hlength, hdigits⟩ := Bool.and_eq_true_iff.mp h
  have hlength : value.length = n * 2 := beq_iff_eq.mp hlength
  unfold decodeFixedHex
  rw [if_neg (not_not.mpr hlength)]
  refine KaText.hexDecode_isSome n (by rwa [List.length_map]) fun c hc => ?_
  obtain ⟨d, hd, rfl⟩ := List.mem_map.mp hc
  exact hexDigit_isSome (List.all_eq_true.mp hdigits d hd)

/-- The hex fields of an operation that its handler decodes. -/
def SealedOperation.Decodes : SealedOperation → Prop
  | .groupMessageV1 gm => (decodeFixedHex 32 gm.blindedGroupId).isSome ∧
      (decodeFixedHex 32 gm.senderPub).isSome
  | .groupControlV1 gc => ∀ key ∈ gc.recipientPubkey, (decodeFixedHex 32 key).isSome
  | _ => True

theorem gcomm_decodes {remaining : Bytes} {op : SealedOperation}
    (h : parseGcomm remaining = some op) : op.Decodes := by
  unfold parseGcomm at h
  split at h
  · split at h
    · cases h
    · next hchecks =>
      obtain rfl := Option.some.inj h
      simp only [Bool.or_eq_true, Bool.not_eq_true', not_or, Bool.not_eq_false] at hchecks
      exact ⟨decode_isSome hchecks.1.1.1.1.1.1, decode_isSome hchecks.1.1.1.2⟩
  · cases h

theorem gctl_decodes {remaining : Bytes} {op : SealedOperation}
    (h : parseGctl remaining = some op) : op.Decodes := by
  unfold parseGctl at h
  split at h
  · split at h
    · obtain rfl := Option.some.inj h
      exact nofun
    · cases h
  · split at h
    · next hchecks =>
      obtain rfl := Option.some.inj h
      intro key hkey
      obtain rfl := Option.some.inj hkey
      exact decode_isSome (Bool.and_eq_true_iff.mp hchecks).1
    · cases h
  · cases h

theorem tip_decodes {remaining : Bytes} {op : SealedOperation} (h : parseTip remaining = some op) :
    op.Decodes := by
  unfold parseTip at h
  split at h
  · split at h
    · cases h
    · obtain rfl := Option.some.inj h
      trivial
  · cases h

theorem comm_decodes {remaining : Bytes} {op : SealedOperation} (h : parseComm remaining = some op) :
    op.Decodes := by
  obtain ⟨fields, -, rfl⟩ := Option.map_eq_some_iff.mp h
  trivial

theorem dm_decodes {remaining : Bytes} {op : SealedOperation} (h : parseDm remaining = some op) :
    op.Decodes := by
  obtain ⟨fields, -, h⟩ := Option.bind_eq_some_iff.mp h
  dsimp only at h
  split at h
  · cases h
  · obtain ⟨fields, -, rfl⟩ := Option.map_eq_some_iff.mp h
    trivial

/-- What is parsed decodes, so no handler fails on it. -/
theorem parse_decodes {payload : Bytes} {op : SealedOperation}
    (h : parseSealedOperation payload = some op) : op.Decodes := by
  obtain ⟨body, -, h⟩ := Option.bind_eq_some_iff.mp h
  split at h
  · cases h
  · split at h
    · obtain rfl := Option.some.inj h
      trivial
    · unfold parseVersion1 at h
      split at h
      · obtain rfl := Option.some.inj h
        trivial
      · split at h
        · obtain rfl := Option.some.inj h
          trivial
        · split at h
          · split at h
            · exact tip_decodes h
            · cases h
          · split at h
            · obtain rfl := Option.some.inj h
              trivial
            · split at h
              · exact comm_decodes h
              · split at h
                · exact dm_decodes h
                · split at h
                  · obtain rfl := Option.some.inj h
                    unfold parseSelfStash
                    split <;> trivial
                  · split at h
                    · exact gcomm_decodes h
                    · split at h
                      · exact gctl_decodes h
                      · cases h

end KaChatIndexer.ChatPayload

import Mathlib.Data.List.TakeWhile
import KaChatIndexer.ChatGroups

/-!
# The wire form of chat operations

What a payload has to be for each operation, apart from how it is parsed; the parser accepts exactly
these, and what it accepts passes every later decoding.
-/
namespace KaChatIndexer.ChatWire
open ByteStrings ChatPayload ChatRows ChatBlocks ChatGroups

/-! ## The grammar -/

/-- `PROTOCOL_PREFIX`, and `LEGACY_PROTOCOL_PREFIX` of before. -/
def protocolPrefix (isKchat : Bool) : Bytes :=
  if isKchat then ascii "kchat:" else ascii "ciph_msg:"

/-- The fields with one colon between them. -/
def joined (fields : List Bytes) : Bytes := [colon].intercalate fields

structure TipFields where
  pubkey : Bytes
  signature : Bytes
  postId : Bytes
  authorPubkey : Bytes
  sealedHex : Bytes

def TipFields.list (f : TipFields) : List Bytes :=
  [f.pubkey, f.signature, f.postId, f.authorPubkey, f.sealedHex]

structure TipFields.Valid (f : TipFields) : Prop where
  pubkey : f.pubkey ≠ [] ∧ colon ∉ f.pubkey
  signature : f.signature ≠ [] ∧ colon ∉ f.signature
  postId : isFixedHex f.postId 32 = true
  authorPubkey : isFixedHex f.authorPubkey 33 = true ∨ isFixedHex f.authorPubkey 32 = true
  sealedHex : isNonemptyLowercaseHex f.sealedHex = true

/-- All that `SealedGroupMessageV1` names. -/
structure GroupFields where
  blindedGroupId : Bytes
  epoch : Bytes
  senderId : Bytes
  senderPub : Bytes
  msgId : Bytes
  ciphertext : Bytes
  signature : Bytes

def GroupFields.list (f : GroupFields) : List Bytes :=
  [f.blindedGroupId, f.epoch, f.senderId, f.senderPub, f.msgId, f.ciphertext, f.signature]

structure GroupFields.Valid (f : GroupFields) : Prop where
  blindedGroupId : isFixedHex f.blindedGroupId 32 = true
  epoch : ∃ n < 2 ^ 64, parseDigits f.epoch = some n
  senderId : isFixedHex f.senderId 32 = true
  senderPub : isFixedHex f.senderPub 32 = true
  msgId : isFixedHex f.msgId 24 = true
  ciphertext : isNonemptyHex f.ciphertext = true
  signature : isFixedHex f.signature 64 = true

/-- The operations after `1:`. -/
inductive Version1 (isKchat : Bool) : Bytes → SealedOperation → Prop
  | pay (sealedHex : Bytes) : Version1 isKchat (ascii "pay:" ++ sealedHex) (.paymentV1 sealedHex)
  | payment (sealedHex : Bytes) :
    Version1 isKchat (ascii "payment:" ++ sealedHex) (.paymentV1 sealedHex)
  | tip (f : TipFields) (h : f.Valid) (hkchat : isKchat = true) :
    Version1 isKchat (ascii "tip:" ++ joined f.list) (.paymentV1 f.sealedHex)
  | handshake (sealedHex : Bytes) :
    Version1 isKchat (ascii "handshake:" ++ sealedHex) (.sealedHandshakeV2 sealedHex)
  | comm (aliasBytes sealedHex : Bytes) (h : colon ∉ aliasBytes) :
    Version1 isKchat (ascii "comm:" ++ (aliasBytes ++ colon :: sealedHex))
      (.contextualMessageV1 ⟨aliasBytes, sealedHex, none⟩)
  | dm (inboxTag aliasBytes sealedHex : Bytes) (htag : isLowercaseHex inboxTag 16 = true)
    (h : colon ∉ aliasBytes) :
    Version1 isKchat (ascii "dm:" ++ (inboxTag ++ colon :: (aliasBytes ++ colon :: sealedHex)))
      (.contextualMessageV1 ⟨aliasBytes, sealedHex, some inboxTag⟩)
  | selfStashKeyed (key sealedHex : Bytes) (h : colon ∉ key) :
    Version1 isKchat (ascii "self_stash:" ++ (key ++ colon :: sealedHex))
      (.selfStashV1 ⟨some key, sealedHex⟩)
  | selfStash (sealedHex : Bytes) (h : colon ∉ sealedHex) :
    Version1 isKchat (ascii "self_stash:" ++ sealedHex) (.selfStashV1 ⟨none, sealedHex⟩)
  | gcomm (f : GroupFields) (h : f.Valid) :
    Version1 isKchat (ascii "gcomm:" ++ joined f.list)
      (.groupMessageV1 ⟨f.blindedGroupId, f.senderPub, joined f.list⟩)
  | gctl (encryptedPayload : Bytes) (h : isNonemptyHex encryptedPayload = true) :
    Version1 isKchat (ascii "gctl:" ++ encryptedPayload)
      (.groupControlV1 ⟨none, encryptedPayload⟩)
  | gctlTo (recipientPubkey encryptedPayload : Bytes)
    (hrecipient : isFixedHex recipientPubkey 32 = true)
    (h : isNonemptyHex encryptedPayload = true) :
    Version1 isKchat (ascii "gctl:" ++ (recipientPubkey ++ colon :: encryptedPayload))
      (.groupControlV1 ⟨some recipientPubkey, encryptedPayload⟩)

/-- What follows the protocol's prefix. -/
inductive Body (isKchat : Bool) : Bytes → SealedOperation → Prop
  | versionless (sealedHex : Bytes) (hne : sealedHex ≠ [])
    (h : ¬ ascii "1:" <+: sealedHex) :
    Body isKchat sealedHex (.sealedMessageOrSealedHandshakeVNone sealedHex)
  | version1 {body : Bytes} {op : SealedOperation} (h : Version1 isKchat body op) :
    Body isKchat (ascii "1:" ++ body) op

def WireForm (payload : Bytes) (op : SealedOperation) : Prop :=
  ∃ isKchat body, payload = protocolPrefix isKchat ++ body ∧ Body isKchat body op

/-! ## Prefixes -/

theorem stripPrefix_iff {pre b rest : Bytes} : stripPrefix pre b = some rest ↔ b = pre ++ rest := by
  induction pre generalizing b with
  | nil => simp [stripPrefix, eq_comm]
  | cons c pre ih =>
    cases b with
    | nil => simp [stripPrefix]
    | cons d b =>
      rw [stripPrefix, List.cons_append, List.cons.injEq]
      by_cases hcd : c = d
      · rw [if_pos hcd, ih]
        simp [hcd]
      · rw [if_neg hcd]
        simp [Ne.symm hcd]

theorem stripPrefix_self (pre rest : Bytes) : stripPrefix pre (pre ++ rest) = some rest :=
  stripPrefix_iff.mpr rfl

/-- Two words of which neither begins the other. -/
def apart : Bytes → Bytes → Bool
  | c :: w, d :: v => c != d || apart w v
  | _, _ => false

/-- No text starts with both. -/
theorem stripPrefix_apart {w v : Bytes} (h : apart w v = true) (rest : Bytes) :
    stripPrefix w (v ++ rest) = none := by
  induction w generalizing v with
  | nil => cases h
  | cons c w ih =>
    cases v with
    | nil => cases h
    | cons d v =>
      rw [List.cons_append, stripPrefix]
      by_cases hcd : c = d
      · rw [if_pos hcd]
        exact ih (by simpa [apart, hcd] using h)
      · rw [if_neg hcd]

/-! ## Fields -/

theorem splitOnce_iff {b x y : Bytes} :
    splitOnce b = some (x, y) ↔ colon ∉ x ∧ b = x ++ colon :: y := by
  constructor
  · intro h
    unfold splitOnce at h
    split at h
    · next hmem =>
      obtain ⟨rfl, rfl⟩ := Prod.ext_iff.mp (Option.some.inj h)
      have hbefore : colon ∉ b.takeWhile (· ≠ colon) := fun hin => by
        simpa using List.mem_takeWhile_imp hin
      refine ⟨hbefore, ?_⟩
      have hjoin := List.takeWhile_append_dropWhile (p := (· ≠ colon)) (l := b)
      have hdrop : b.dropWhile (· ≠ colon) = colon :: (b.dropWhile (· ≠ colon)).drop 1 := by
        have hhead := List.head?_dropWhile_not (· ≠ colon) b
        cases hrest : b.dropWhile (· ≠ colon) with
        | nil =>
          rw [hrest, List.append_nil] at hjoin
          exact absurd hmem (hjoin ▸ hbefore)
        | cons c rest =>
          rw [hrest] at hhead
          have hc : c = colon := by simpa using hhead
          rw [hc]
          rfl
      rw [← hdrop]
      exact hjoin.symm
    · cases h
  · rintro ⟨hx, rfl⟩
    have hpos : ∀ c ∈ x, decide (c ≠ colon) = true := fun c hc =>
      decide_eq_true fun heq => hx (heq ▸ hc)
    rw [splitOnce, if_pos (by simp), List.takeWhile_append_of_pos hpos,
      List.dropWhile_append_of_pos hpos]
    simp

theorem splitOnce_none {b : Bytes} : splitOnce b = none ↔ colon ∉ b := by
  unfold splitOnce
  split
  · next h => simp [h]
  · next h => simp [h]

/-- No field of a text has the separator in it. -/
theorem mem_splitOn {b field : Bytes} (h : field ∈ b.splitOn colon) : colon ∉ field := by
  induction b generalizing field with
  | nil =>
    rw [List.splitOn_nil, List.mem_singleton] at h
    simp [h]
  | cons c b ih =>
    rw [List.splitOn_cons_eq_if_modifyHead] at h
    split at h
    · rcases List.mem_cons.mp h with rfl | h
      · simp
      · exact ih h
    · next hc =>
      have hne : colon ≠ c := fun heq => hc (by rw [heq]; simp)
      cases hsplit : b.splitOn colon with
      | nil => exact absurd hsplit (List.splitOn_ne_nil colon b)
      | cons first rest =>
        rw [hsplit, List.modifyHead_cons] at h
        rcases List.mem_cons.mp h with rfl | h
        · simp [hne, ih (hsplit ▸ List.mem_cons_self)]
        · exact ih (hsplit ▸ List.mem_cons_of_mem first h)

/-- The fields of a text are those that it joins. -/
theorem splitOn_iff {b : Bytes} {fields : List Bytes} (hne : fields ≠ []) :
    b.splitOn colon = fields ↔ (∀ field ∈ fields, colon ∉ field) ∧ b = joined fields := by
  constructor
  · rintro rfl
    exact ⟨fun field => mem_splitOn, (List.intercalate_splitOn colon).symm⟩
  · rintro ⟨hfields, rfl⟩
    exact List.splitOn_intercalate colon hfields hne

theorem hex_colon {c : UInt8} (h : isHexDigit c = true) : c ≠ colon := by
  rintro rfl
  exact absurd h (by decide)

theorem fixedHex_colon {value : Bytes} {n : ℕ} (h : isFixedHex value n = true) : colon ∉ value :=
  fun hmem => hex_colon (List.all_eq_true.mp (Bool.and_eq_true_iff.mp h).2 colon hmem) rfl

theorem nonemptyHex_colon {value : Bytes} (h : isNonemptyHex value = true) : colon ∉ value :=
  fun hmem => hex_colon (List.all_eq_true.mp (Bool.and_eq_true_iff.mp h).2 colon hmem) rfl

theorem lowerHex_colon {value : Bytes} (h : value.all isLowerHexDigit = true) : colon ∉ value :=
  fun hmem => absurd (List.all_eq_true.mp h colon hmem) (by decide)

theorem digits_colon {value : Bytes} {n : ℕ} (h : parseDigits value = some n) : colon ∉ value := by
  unfold parseDigits at h
  split at h
  · next hdigits =>
    exact fun hmem => absurd (List.all_eq_true.mp hdigits.2 colon hmem) (by decide)
  · cases h

theorem TipFields.Valid.colon {f : TipFields} (h : f.Valid) : ∀ field ∈ f.list, colon ∉ field := by
  intro field hfield
  simp only [TipFields.list, List.mem_cons, List.not_mem_nil, or_false] at hfield
  rcases hfield with rfl | rfl | rfl | rfl | rfl
  · exact h.pubkey.2
  · exact h.signature.2
  · exact fixedHex_colon h.postId
  · exact h.authorPubkey.elim fixedHex_colon fixedHex_colon
  · exact lowerHex_colon (Bool.and_eq_true_iff.mp h.sealedHex).2

theorem GroupFields.Valid.colon {f : GroupFields} (h : f.Valid) :
    ∀ field ∈ f.list, colon ∉ field := by
  obtain ⟨n, -, hn⟩ := h.epoch
  intro field hfield
  simp only [GroupFields.list, List.mem_cons, List.not_mem_nil, or_false] at hfield
  rcases hfield with rfl | rfl | rfl | rfl | rfl | rfl | rfl
  · exact fixedHex_colon h.blindedGroupId
  · exact digits_colon hn
  · exact fixedHex_colon h.senderId
  · exact fixedHex_colon h.senderPub
  · exact fixedHex_colon h.msgId
  · exact nonemptyHex_colon h.ciphertext
  · exact fixedHex_colon h.signature

/-! ## Each parser and its form -/

theorem parseTip_iff {remaining : Bytes} {op : SealedOperation} :
    parseTip remaining = some op ↔
      ∃ f : TipFields, f.Valid ∧ remaining = joined f.list ∧ op = .paymentV1 f.sealedHex := by
  constructor
  · intro h
    unfold parseTip at h
    split at h
    · next pubkey signature postId authorPubkey sealedHex hsplit =>
      split at h
      · cases h
      · next hchecks =>
        simp only [Bool.or_eq_true, Bool.not_eq_true', Bool.or_eq_false_iff, decide_eq_true_eq,
          not_or, Bool.not_eq_false] at hchecks
        obtain ⟨⟨⟨⟨hpubkey, hsignature⟩, hpost⟩, hauthor⟩, hsealed⟩ := hchecks
        obtain ⟨hfields, hjoined⟩ := (splitOn_iff (by simp)).mp hsplit
        refine ⟨⟨pubkey, signature, postId, authorPubkey, sealedHex⟩, ?_, hjoined,
          (Option.some.inj h).symm⟩
        exact
          { pubkey := ⟨hpubkey, hfields _ (by simp)⟩
            signature := ⟨hsignature, hfields _ (by simp)⟩
            postId := hpost
            authorPubkey := by
              by_contra hnot
              rw [not_or, Bool.not_eq_true, Bool.not_eq_true] at hnot
              exact hauthor hnot
            sealedHex := hsealed }
    · cases h
  · rintro ⟨f, h, rfl, rfl⟩
    have hsplit := (splitOn_iff (by simp [TipFields.list])).mpr ⟨h.colon, rfl⟩
    have hauthor : (isFixedHex f.authorPubkey 33 || isFixedHex f.authorPubkey 32) = true :=
      Bool.or_eq_true_iff.mpr h.authorPubkey
    unfold parseTip
    rw [hsplit, TipFields.list]
    simp [h.pubkey.1, h.signature.1, h.postId, hauthor, h.sealedHex]

theorem parseComm_iff {remaining : Bytes} {op : SealedOperation} :
    parseComm remaining = some op ↔ ∃ aliasBytes sealedHex, colon ∉ aliasBytes ∧
      remaining = aliasBytes ++ colon :: sealedHex ∧
        op = .contextualMessageV1 ⟨aliasBytes, sealedHex, none⟩ := by
  constructor
  · intro h
    obtain ⟨⟨aliasBytes, sealedHex⟩, hsplit, rfl⟩ := Option.map_eq_some_iff.mp h
    obtain ⟨halias, hremaining⟩ := splitOnce_iff.mp hsplit
    exact ⟨aliasBytes, sealedHex, halias, hremaining, rfl⟩
  · rintro ⟨aliasBytes, sealedHex, halias, hremaining, rfl⟩
    rw [parseComm, splitOnce_iff.mpr ⟨halias, hremaining⟩]
    rfl

theorem parseDm_iff {remaining : Bytes} {op : SealedOperation} :
    parseDm remaining = some op ↔ ∃ inboxTag aliasBytes sealedHex,
      isLowercaseHex inboxTag 16 = true ∧ colon ∉ aliasBytes ∧
        remaining = inboxTag ++ colon :: (aliasBytes ++ colon :: sealedHex) ∧
          op = .contextualMessageV1 ⟨aliasBytes, sealedHex, some inboxTag⟩ := by
  constructor
  · intro h
    obtain ⟨⟨inboxTag, rest⟩, hsplit, h⟩ := Option.bind_eq_some_iff.mp h
    obtain ⟨-, hremaining⟩ := splitOnce_iff.mp hsplit
    dsimp only at h
    split at h
    · cases h
    · next htag =>
      obtain ⟨⟨aliasBytes, sealedHex⟩, hsplit', rfl⟩ := Option.map_eq_some_iff.mp h
      obtain ⟨halias, hrest⟩ := splitOnce_iff.mp hsplit'
      exact ⟨inboxTag, aliasBytes, sealedHex, by simpa using htag, halias,
        by rw [hremaining, hrest], rfl⟩
  · rintro ⟨inboxTag, aliasBytes, sealedHex, htag, halias, hremaining, rfl⟩
    have hcolon : colon ∉ inboxTag := lowerHex_colon (Bool.and_eq_true_iff.mp htag).2
    rw [parseDm, splitOnce_iff.mpr ⟨hcolon, hremaining⟩, Option.bind_some]
    simp [htag, splitOnce_iff.mpr ⟨halias, rfl⟩]

theorem parseSelfStash_iff {remaining : Bytes} {op : SealedOperation} :
    some (parseSelfStash remaining) = some op ↔
      (∃ key sealedHex, colon ∉ key ∧ remaining = key ++ colon :: sealedHex ∧
        op = .selfStashV1 ⟨some key, sealedHex⟩) ∨
      colon ∉ remaining ∧ op = .selfStashV1 ⟨none, remaining⟩ := by
  rw [Option.some.injEq]
  unfold parseSelfStash
  split
  · next key sealedHex hsplit =>
    obtain ⟨hkey, hremaining⟩ := splitOnce_iff.mp hsplit
    constructor
    · rintro rfl
      exact .inl ⟨key, sealedHex, hkey, hremaining, rfl⟩
    · rintro (⟨key', sealedHex', hkey', hremaining', rfl⟩ | ⟨hnone, -⟩)
      · have hsame := hsplit.symm.trans (splitOnce_iff.mpr ⟨hkey', hremaining'⟩)
        obtain ⟨rfl, rfl⟩ := Prod.ext_iff.mp (Option.some.inj hsame)
        rfl
      · exact absurd hnone (by rw [hremaining]; simp)
  · next hsplit =>
    have hnone := splitOnce_none.mp hsplit
    constructor
    · rintro rfl
      exact .inr ⟨hnone, rfl⟩
    · rintro (⟨key, sealedHex, -, hremaining, -⟩ | ⟨-, rfl⟩)
      · exact absurd hnone (by rw [hremaining]; simp)
      · rfl

theorem parseGcomm_iff {remaining : Bytes} {op : SealedOperation} :
    parseGcomm remaining = some op ↔ ∃ f : GroupFields, f.Valid ∧ remaining = joined f.list ∧
      op = .groupMessageV1 ⟨f.blindedGroupId, f.senderPub, joined f.list⟩ := by
  constructor
  · intro h
    unfold parseGcomm at h
    split at h
    · next blindedGroupId epoch senderId senderPub msgId ciphertext signature hsplit =>
      split at h
      · cases h
      · next hchecks =>
        simp only [Bool.or_eq_true, Bool.not_eq_true', not_or, Bool.not_eq_false] at hchecks
        obtain ⟨⟨⟨⟨⟨⟨hid, hepoch⟩, hsenderId⟩, hpub⟩, hmsgId⟩, hciphertext⟩, hsignature⟩ := hchecks
        obtain ⟨n, hn, hbound⟩ := (Option.any_eq_true _ _).mp hepoch
        obtain ⟨-, hjoined⟩ := (splitOn_iff (by simp)).mp hsplit
        refine ⟨⟨blindedGroupId, epoch, senderId, senderPub, msgId, ciphertext, signature⟩,
          ⟨hid, ⟨n, of_decide_eq_true hbound, hn⟩, hsenderId, hpub, hmsgId, hciphertext,
            hsignature⟩, hjoined, ?_⟩
        rw [← Option.some.inj h, hjoined]
        rfl
    · cases h
  · rintro ⟨f, h, rfl, rfl⟩
    obtain ⟨n, hbound, hn⟩ := h.epoch
    have hsplit := (splitOn_iff (by simp [GroupFields.list])).mpr ⟨h.colon, rfl⟩
    unfold parseGcomm
    rw [hsplit, GroupFields.list]
    simpa [h.blindedGroupId, hn, h.senderId, h.senderPub, h.msgId, h.ciphertext,
      h.signature] using hbound

theorem parseGctl_iff {remaining : Bytes} {op : SealedOperation} :
    parseGctl remaining = some op ↔
      (isNonemptyHex remaining = true ∧ op = .groupControlV1 ⟨none, remaining⟩) ∨
      ∃ recipientPubkey encryptedPayload, isFixedHex recipientPubkey 32 = true ∧
        isNonemptyHex encryptedPayload = true ∧
          remaining = recipientPubkey ++ colon :: encryptedPayload ∧
            op = .groupControlV1 ⟨some recipientPubkey, encryptedPayload⟩ := by
  constructor
  · intro h
    unfold parseGctl at h
    split at h
    · next encryptedPayload hsplit =>
      obtain ⟨-, hjoined⟩ := (splitOn_iff (by simp)).mp hsplit
      have hremaining : remaining = encryptedPayload := by simpa [joined] using hjoined
      split at h
      · next hhex =>
        rw [hremaining]
        exact .inl ⟨hhex, (Option.some.inj h).symm⟩
      · cases h
    · next recipientPubkey encryptedPayload hsplit =>
      obtain ⟨-, hjoined⟩ := (splitOn_iff (by simp)).mp hsplit
      split at h
      · next hchecks =>
        obtain ⟨hrecipient, hhex⟩ := Bool.and_eq_true_iff.mp hchecks
        refine .inr ⟨recipientPubkey, encryptedPayload, hrecipient, hhex, ?_,
          (Option.some.inj h).symm⟩
        rw [hjoined]
        simp [joined]
      · cases h
    · cases h
  · rintro (⟨hhex, rfl⟩ | ⟨recipientPubkey, encryptedPayload, hrecipient, hhex, rfl, rfl⟩)
    · unfold parseGctl
      rw [List.splitOn_eq_singleton (nonemptyHex_colon hhex)]
      simp [hhex]
    · unfold parseGctl
      rw [List.splitOn_append_cons_self_of_not_mem (fixedHex_colon hrecipient),
        List.splitOn_eq_singleton (nonemptyHex_colon hhex)]
      simp [hrecipient, hhex]

/-! ## The whole payload -/

theorem parseVersion1_iff {isKchat : Bool} {body : Bytes} {op : SealedOperation} :
    parseVersion1 isKchat body = some op ↔ Version1 isKchat body op := by
  constructor
  · intro h
    unfold parseVersion1 at h
    split at h
    · next sealedHex hbody =>
      obtain rfl := stripPrefix_iff.mp hbody
      obtain rfl := Option.some.inj h
      exact .pay sealedHex
    split at h
    · next sealedHex hbody =>
      obtain rfl := stripPrefix_iff.mp hbody
      obtain rfl := Option.some.inj h
      exact .payment sealedHex
    split at h
    · next remaining hbody =>
      obtain rfl := stripPrefix_iff.mp hbody
      split at h
      · next hkchat =>
        obtain ⟨f, hvalid, rfl, rfl⟩ := parseTip_iff.mp h
        exact .tip f hvalid hkchat
      · cases h
    split at h
    · next sealedHex hbody =>
      obtain rfl := stripPrefix_iff.mp hbody
      obtain rfl := Option.some.inj h
      exact .handshake sealedHex
    split at h
    · next remaining hbody =>
      obtain rfl := stripPrefix_iff.mp hbody
      obtain ⟨aliasBytes, sealedHex, halias, rfl, rfl⟩ := parseComm_iff.mp h
      exact .comm aliasBytes sealedHex halias
    split at h
    · next remaining hbody =>
      obtain rfl := stripPrefix_iff.mp hbody
      obtain ⟨inboxTag, aliasBytes, sealedHex, htag, halias, rfl, rfl⟩ := parseDm_iff.mp h
      exact .dm inboxTag aliasBytes sealedHex htag halias
    split at h
    · next remaining hbody =>
      obtain rfl := stripPrefix_iff.mp hbody
      rcases parseSelfStash_iff.mp h with ⟨key, sealedHex, hkey, rfl, rfl⟩ | ⟨hnone, rfl⟩
      · exact .selfStashKeyed key sealedHex hkey
      · exact .selfStash remaining hnone
    split at h
    · next remaining hbody =>
      obtain rfl := stripPrefix_iff.mp hbody
      obtain ⟨f, hvalid, rfl, rfl⟩ := parseGcomm_iff.mp h
      exact .gcomm f hvalid
    split at h
    · next remaining hbody =>
      obtain rfl := stripPrefix_iff.mp hbody
      rcases parseGctl_iff.mp h with ⟨hhex, rfl⟩ | ⟨recipient, payload, hrecipient, hhex, rfl, rfl⟩
      · exact .gctl remaining hhex
      · exact .gctlTo recipient payload hrecipient hhex
    · cases h
  · -- the words before the one that is there do not begin the body
    intro h
    cases h with
    | pay sealedHex => simp (disch := decide +kernel) only [parseVersion1, stripPrefix_self]
    | payment sealedHex =>
      simp (disch := decide +kernel) only [parseVersion1, stripPrefix_apart, stripPrefix_self]
    | tip f hvalid hkchat =>
      simp (disch := decide +kernel) only [parseVersion1, stripPrefix_apart, stripPrefix_self,
        hkchat, if_true]
      exact parseTip_iff.mpr ⟨f, hvalid, rfl, rfl⟩
    | handshake sealedHex =>
      simp (disch := decide +kernel) only [parseVersion1, stripPrefix_apart, stripPrefix_self]
    | comm aliasBytes sealedHex halias =>
      simp (disch := decide +kernel) only [parseVersion1, stripPrefix_apart, stripPrefix_self]
      exact parseComm_iff.mpr ⟨aliasBytes, sealedHex, halias, rfl, rfl⟩
    | dm inboxTag aliasBytes sealedHex htag halias =>
      simp (disch := decide +kernel) only [parseVersion1, stripPrefix_apart, stripPrefix_self]
      exact parseDm_iff.mpr ⟨inboxTag, aliasBytes, sealedHex, htag, halias, rfl, rfl⟩
    | selfStashKeyed key sealedHex hkey =>
      simp (disch := decide +kernel) only [parseVersion1, stripPrefix_apart, stripPrefix_self]
      exact parseSelfStash_iff.mpr (.inl ⟨key, sealedHex, hkey, rfl, rfl⟩)
    | selfStash sealedHex hnone =>
      simp (disch := decide +kernel) only [parseVersion1, stripPrefix_apart, stripPrefix_self]
      exact parseSelfStash_iff.mpr (.inr ⟨hnone, rfl⟩)
    | gcomm f hvalid =>
      simp (disch := decide +kernel) only [parseVersion1, stripPrefix_apart, stripPrefix_self]
      exact parseGcomm_iff.mpr ⟨f, hvalid, rfl, rfl⟩
    | gctl encryptedPayload hhex =>
      simp (disch := decide +kernel) only [parseVersion1, stripPrefix_apart, stripPrefix_self]
      exact parseGctl_iff.mpr (.inl ⟨hhex, rfl⟩)
    | gctlTo recipientPubkey encryptedPayload hrecipient hhex =>
      simp (disch := decide +kernel) only [parseVersion1, stripPrefix_apart, stripPrefix_self]
      exact parseGctl_iff.mpr
        (.inr ⟨recipientPubkey, encryptedPayload, hrecipient, hhex, rfl, rfl⟩)

theorem parse_prefixed {isKchat : Bool} {body : Bytes} {op : SealedOperation} :
    parseSealedOperation (protocolPrefix isKchat ++ body) = some op ↔ Body isKchat body op := by
  have hparse : parseSealedOperation (protocolPrefix isKchat ++ body) =
      if body = [] then none
      else (stripPrefix (ascii "1:") body).elim
        (some (.sealedMessageOrSealedHandshakeVNone body)) (parseVersion1 isKchat) := by
    cases isKchat with
    | true =>
      unfold parseSealedOperation protocolPrefix
      simp only [if_true, stripPrefix_self, Option.some_or, Option.bind_some, Option.isSome_some]
      cases stripPrefix (ascii "1:") body <;> rfl
    | false =>
      have hother : stripPrefix (ascii "kchat:") (ascii "ciph_msg:" ++ body) = none :=
        stripPrefix_apart (by decide +kernel) body
      unfold parseSealedOperation protocolPrefix
      simp only [Bool.false_eq_true, if_false, hother, stripPrefix_self, Option.none_or,
        Option.bind_some, Option.isSome_none]
      cases stripPrefix (ascii "1:") body <;> rfl
  rw [hparse]
  constructor
  · intro h
    split at h
    · cases h
    · next hne =>
      cases hstrip : stripPrefix (ascii "1:") body with
      | none =>
        rw [hstrip] at h
        rw [← Option.some.inj h]
        refine .versionless body hne fun ⟨rest, hrest⟩ => ?_
        rw [stripPrefix_iff.mpr hrest.symm] at hstrip
        cases hstrip
      | some rest =>
        rw [hstrip] at h
        rw [stripPrefix_iff.mp hstrip]
        exact .version1 (parseVersion1_iff.mp h)
  · intro h
    cases h with
    | versionless _ hne hnot =>
      have hnone : stripPrefix (ascii "1:") body = none := by
        cases hstrip : stripPrefix (ascii "1:") body with
        | none => rfl
        | some rest => exact absurd ⟨rest, (stripPrefix_iff.mp hstrip).symm⟩ hnot
      rw [if_neg hne, hnone]
      rfl
    | version1 hversion =>
      rw [if_neg (List.append_ne_nil_of_left_ne_nil (by decide) _), stripPrefix_self]
      exact parseVersion1_iff.mpr hversion

/-- The parser accepts the wire forms. -/
theorem parse_iff {payload : Bytes} {op : SealedOperation} :
    parseSealedOperation payload = some op ↔ WireForm payload op := by
  constructor
  · intro h
    obtain ⟨body, hbody, -⟩ := Option.bind_eq_some_iff.mp h
    have hprefix : ∃ isKchat, payload = protocolPrefix isKchat ++ body := by
      rcases Option.or_eq_some_iff.mp hbody with hkchat | ⟨-, hlegacy⟩
      · exact ⟨true, stripPrefix_iff.mp hkchat⟩
      · exact ⟨false, stripPrefix_iff.mp hlegacy⟩
    obtain ⟨isKchat, rfl⟩ := hprefix
    exact ⟨isKchat, body, rfl, parse_prefixed.mp h⟩
  · rintro ⟨isKchat, body, rfl, h⟩
    exact parse_prefixed.mpr h

/-! ## Written again -/

/-- An operation as its sender writes it, after the protocol's prefix. -/
def wireText : SealedOperation → Bytes
  | .sealedMessageOrSealedHandshakeVNone sealedHex => sealedHex
  | .paymentV1 sealedHex => ascii "1:" ++ (ascii "pay:" ++ sealedHex)
  | .sealedHandshakeV2 sealedHex => ascii "1:" ++ (ascii "handshake:" ++ sealedHex)
  | .contextualMessageV1 ⟨aliasBytes, sealedHex, none⟩ =>
    ascii "1:" ++ (ascii "comm:" ++ (aliasBytes ++ colon :: sealedHex))
  | .contextualMessageV1 ⟨aliasBytes, sealedHex, some inboxTag⟩ =>
    ascii "1:" ++ (ascii "dm:" ++ (inboxTag ++ colon :: (aliasBytes ++ colon :: sealedHex)))
  | .selfStashV1 ⟨none, sealedHex⟩ => ascii "1:" ++ (ascii "self_stash:" ++ sealedHex)
  | .selfStashV1 ⟨some key, sealedHex⟩ =>
    ascii "1:" ++ (ascii "self_stash:" ++ (key ++ colon :: sealedHex))
  | .groupMessageV1 gm => ascii "1:" ++ (ascii "gcomm:" ++ gm.sealedHex)
  | .groupControlV1 ⟨none, encryptedPayload⟩ =>
    ascii "1:" ++ (ascii "gctl:" ++ encryptedPayload)
  | .groupControlV1 ⟨some recipientPubkey, encryptedPayload⟩ =>
    ascii "1:" ++ (ascii "gctl:" ++ (recipientPubkey ++ colon :: encryptedPayload))

/-- The other spellings of a payment. -/
def Respelled (isKchat : Bool) (body : Bytes) (op : SealedOperation) : Prop :=
  ∃ sealedHex, op = .paymentV1 sealedHex ∧
    (body = ascii "1:" ++ (ascii "payment:" ++ sealedHex) ∨
      isKchat = true ∧ ∃ f : TipFields, f.Valid ∧ f.sealedHex = sealedHex ∧
        body = ascii "1:" ++ (ascii "tip:" ++ joined f.list))

theorem Body.wireText {isKchat : Bool} {body : Bytes} {op : SealedOperation}
    (h : Body isKchat body op) : body = wireText op ∨ Respelled isKchat body op := by
  cases h with
  | versionless => exact .inl rfl
  | version1 hversion =>
    cases hversion with
    | payment sealedHex => exact .inr ⟨sealedHex, rfl, .inl rfl⟩
    | tip f hvalid hkchat => exact .inr ⟨f.sealedHex, rfl, .inr ⟨hkchat, f, hvalid, rfl, rfl⟩⟩
    | _ => exact .inl rfl

/-- Written again under either prefix it is the same operation. -/
theorem Body.again {isKchat : Bool} {body : Bytes} {op : SealedOperation}
    (h : Body isKchat body op) (isKchat' : Bool) : Body isKchat' (ChatWire.wireText op) op := by
  cases h with
  | versionless _ hne hnot => exact .versionless _ hne hnot
  | version1 hversion =>
    cases hversion with
    | pay sealedHex => exact .version1 (.pay sealedHex)
    | payment sealedHex => exact .version1 (.pay sealedHex)
    | tip f hvalid hkchat => exact .version1 (.pay f.sealedHex)
    | handshake sealedHex => exact .version1 (.handshake sealedHex)
    | comm aliasBytes sealedHex halias => exact .version1 (.comm aliasBytes sealedHex halias)
    | dm inboxTag aliasBytes sealedHex htag halias =>
      exact .version1 (.dm inboxTag aliasBytes sealedHex htag halias)
    | selfStashKeyed key sealedHex hkey => exact .version1 (.selfStashKeyed key sealedHex hkey)
    | selfStash sealedHex hnone => exact .version1 (.selfStash sealedHex hnone)
    | gcomm f hvalid => exact .version1 (.gcomm f hvalid)
    | gctl encryptedPayload hhex => exact .version1 (.gctl encryptedPayload hhex)
    | gctlTo recipientPubkey encryptedPayload hrecipient hhex =>
      exact .version1 (.gctlTo recipientPubkey encryptedPayload hrecipient hhex)

/-! ## The two prefixes -/

/-- Only a tip needs the prefix of today. -/
theorem Version1.other {isKchat : Bool} {body : Bytes} {op : SealedOperation}
    (h : Version1 isKchat body op) (hnot : ¬ ascii "tip:" <+: body) (isKchat' : Bool) :
    Version1 isKchat' body op := by
  cases h with
  | tip f hvalid hkchat => exact absurd (List.prefix_append _ _) hnot
  | pay sealedHex => exact .pay sealedHex
  | payment sealedHex => exact .payment sealedHex
  | handshake sealedHex => exact .handshake sealedHex
  | comm aliasBytes sealedHex halias => exact .comm aliasBytes sealedHex halias
  | dm inboxTag aliasBytes sealedHex htag halias =>
    exact .dm inboxTag aliasBytes sealedHex htag halias
  | selfStashKeyed key sealedHex hkey => exact .selfStashKeyed key sealedHex hkey
  | selfStash sealedHex hnone => exact .selfStash sealedHex hnone
  | gcomm f hvalid => exact .gcomm f hvalid
  | gctl encryptedPayload hhex => exact .gctl encryptedPayload hhex
  | gctlTo recipientPubkey encryptedPayload hrecipient hhex =>
    exact .gctlTo recipientPubkey encryptedPayload hrecipient hhex

theorem Body.other {isKchat : Bool} {body : Bytes} {op : SealedOperation}
    (h : Body isKchat body op) (hnot : ¬ ascii "1:tip:" <+: body) (isKchat' : Bool) :
    Body isKchat' body op := by
  cases h with
  | versionless _ hne hversion => exact .versionless _ hne hversion
  | version1 hversion =>
    refine .version1 (hversion.other (fun ⟨rest, hrest⟩ => hnot ⟨rest, ?_⟩) isKchat')
    rw [← hrest]
    rfl

theorem prefixes_agree {body : Bytes} (hnot : ¬ ascii "1:tip:" <+: body) :
    parseSealedOperation (ascii "kchat:" ++ body) =
      parseSealedOperation (ascii "ciph_msg:" ++ body) := by
  refine Option.ext fun op => ?_
  exact (@parse_prefixed true body op).trans
    (Iff.trans ⟨fun h => h.other hnot false, fun h => h.other hnot true⟩
      (@parse_prefixed false body op).symm)

/-- A tip under the prefix of before is no operation. -/
theorem legacy_tip (rest : Bytes) :
    parseSealedOperation (ascii "ciph_msg:" ++ (ascii "1:tip:" ++ rest)) = none := by
  refine Option.eq_none_iff_forall_ne_some.mpr fun op h => ?_
  have hbody := (@parse_prefixed false _ op).mp h
  have htext : ascii "1:tip:" ++ rest = ascii "1:" ++ (ascii "tip:" ++ rest) := rfl
  rw [htext] at hbody
  generalize hwhole : ascii "1:" ++ (ascii "tip:" ++ rest) = body at hbody
  cases hbody with
  | versionless _ hne hnot => exact hnot ⟨_, hwhole⟩
  | version1 hversion =>
    have hversion' := List.append_cancel_left hwhole
    rw [← hversion'] at hversion
    have hparse := parseVersion1_iff.mpr hversion
    simp (disch := decide +kernel) only [parseVersion1, stripPrefix_apart, stripPrefix_self] at hparse
    cases hparse

/-! ## Later decodings -/

/-- A tag that is accepted decodes. -/
theorem tag_decodes {payload : Bytes} {cm : SealedContextualMessage}
    (h : parseSealedOperation payload = some (.contextualMessageV1 cm)) :
    ∀ tag ∈ cm.inboxTag, (decodeFixedHex 16 tag).isSome := by
  obtain ⟨isKchat, body, -, hbody⟩ := parse_iff.mp h
  intro tag htag
  cases hbody with
  | version1 hversion =>
    cases hversion with
    | comm => cases htag
    | dm inboxTag aliasBytes sealedHex hhex halias =>
      obtain rfl := Option.some.inj htag
      obtain ⟨hlength, hdigits⟩ := Bool.and_eq_true_iff.mp hhex
      refine decode_isSome (Bool.and_eq_true_iff.mpr ⟨hlength, ?_⟩)
      refine List.all_eq_true.mpr fun c hc => ?_
      rw [isHexDigit, List.all_eq_true.mp hdigits c hc, Bool.true_or]

/-- What a block can fail on: a transaction without inputs, or two records of one id. -/
def OtherFault (block : RpcBlock) (fault : Fault) : Prop :=
  fault = .noInput ∧ (∃ tx ∈ block.transactions, tx.inputs = []) ∨ fault = .twoKeys

/-- A block fails on no payload. -/
theorem handleBlock_fails {env : Env} {block : RpcBlock} {db : Database} {fault : Fault}
    (h : handleBlock env block db = .error fault) : OtherFault block fault := by
  have htx : ∀ tx ∈ block.transactions, ∀ wtx : Database,
      Fallible.Ends (OtherFault block) (fun _ => True)
        (handleTransaction env db block.header tx wtx) := by
    intro tx hmem wtx
    unfold handleTransaction
    split
    · trivial
    · next op hop =>
      split
      · next hinputs => exact .inl ⟨rfl, tx, hmem, hinputs⟩
      · next outpoint _ _ =>
        refine Fallible.Ends.bind ?_ fun sender (_ : True) => ?_
        · unfold resolveSender
          split
          · trivial
          · have hkey : Fallible.Ends (OtherFault block) (fun _ => True)
                (keyByTxId db.acceptance outpoint.txId) := by
              unfold keyByTxId onlyRecord
              split
              · trivial
              · trivial
              · exact .inr rfl
            exact hkey.map fun _ _ => trivial
        · unfold indexTransaction
          dsimp only
          split
          · next hwritten =>
            split at hwritten
            · exact absurd hwritten (Option.isSome_iff_ne_none.mp
                (handleOperation_isSome _ wtx.rows (parse_decodes hop)))
            · cases hwritten
          · trivial
  have hblock : Fallible.Ends (OtherFault block) (fun _ => True) (handleBlock env block db) := by
    unfold handleBlock
    dsimp only
    split
    · trivial
    · exact Fallible.ends_fold (fun _ => True) (fun tx hmem s _ => htx tx hmem s) trivial
  exact hblock.of_error h

/-- A group message is dropped or kept, whatever its payload says; it is missing where it fails. -/
theorem resolveGroupMessage_fails {r : Resolution} {key : GroupMessageKeyByBlindedGroupId}
    {rows : Rows} (h : resolveGroupMessage r key rows = none) :
    get r.snapshot.txIdToGroupMessage key.txId = none := by
  cases hpayload : get r.snapshot.txIdToGroupMessage key.txId with
  | none => rfl
  | some payload =>
    unfold resolveGroupMessage at h
    rw [hpayload, Option.bind_some] at h
    split at h
    · next message hparse =>
      obtain ⟨pubkey, hpubkey⟩ := Option.isSome_iff_exists.mp (parse_decodes hparse).2
      rw [hpubkey] at h
      cases h
    · cases h

/-- The grammar of chat operations. -/
theorem wire_grammar :
    (∀ payload op, parseSealedOperation payload = some op ↔ WireForm payload op) ∧
    (∀ isKchat body op, parseSealedOperation (protocolPrefix isKchat ++ body) = some op →
      (body = wireText op ∨ Respelled isKchat body op) ∧
        ∀ isKchat', parseSealedOperation (protocolPrefix isKchat' ++ wireText op) = some op) ∧
    (∀ body, ¬ ascii "1:tip:" <+: body →
      parseSealedOperation (ascii "kchat:" ++ body) =
        parseSealedOperation (ascii "ciph_msg:" ++ body)) ∧
    (∀ rest, parseSealedOperation (ascii "ciph_msg:" ++ (ascii "1:tip:" ++ rest)) = none) ∧
    (∀ payload op, parseSealedOperation payload = some op → op.Decodes ∧
      (∀ cm, op = .contextualMessageV1 cm →
        ∀ tag ∈ cm.inboxTag, (decodeFixedHex 16 tag).isSome) ∧
      ∀ gm, op = .groupMessageV1 gm →
        parseSealedOperation (ascii "ciph_msg:1:gcomm:" ++ fromUtf8Lossy gm.sealedHex) =
          some (.groupMessageV1 gm)) ∧
    (∀ r key rows, resolveGroupMessage r key rows = none →
      get r.snapshot.txIdToGroupMessage key.txId = none) ∧
    ∀ env block db fault, handleBlock env block db = .error fault → OtherFault block fault := by
  refine ⟨fun _ _ => parse_iff, fun isKchat body op h => ?_, fun _ => prefixes_agree, legacy_tip,
    fun payload op h => ⟨parse_decodes h, ?_, ?_⟩, fun _ _ _ => resolveGroupMessage_fails,
    fun _ _ _ _ => handleBlock_fails⟩
  · have hbody := parse_prefixed.mp h
    exact ⟨hbody.wireText, fun isKchat' => parse_prefixed.mpr (hbody.again isKchat')⟩
  · rintro cm rfl
    exact tag_decodes h
  · rintro gm rfl
    exact parse_stored h

end KaChatIndexer.ChatWire

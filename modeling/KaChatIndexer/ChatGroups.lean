import KaChatIndexer.ChatRuns

/-!
# A blinded group id belongs to one key

The first message that is its sender's own binds the id to its key. From then on only messages of
that key get a sender under the id, whichever of the two actors makes the check.
-/
namespace KaChatIndexer.ChatGroups
open ByteStrings ChatPayload ChatRows ChatBlocks ChatAcceptance ChatSlots ChatRuns Fallible

variable {env : Env}

/-! ## Stored payloads -/

/-- The key that a stored payload names as its sender. -/
def senderPubOf (payload : Bytes) : Option Bytes :=
  match parseSealedOperation (ascii "ciph_msg:1:gcomm:" ++ fromUtf8Lossy payload) with
  | some (.groupMessageV1 message) => decodeFixedHex 32 message.senderPub
  | _ => none

theorem hexDigit_ascii {c : UInt8} (h : isHexDigit c = true) : c ≤ 0x7f := by
  have hall : ∀ n < 256, isHexDigit (UInt8.ofNat n) = true → UInt8.ofNat n ≤ 0x7f := by
    decide +kernel
  have hc := hall c.toNat c.toNat_lt
  rw [UInt8.ofNat_toNat] at hc
  exact hc h

theorem fixedHex_ascii {value : Bytes} {n : ℕ} (h : isFixedHex value n = true) :
    ∀ c ∈ value, c ≤ 0x7f :=
  fun c hc => hexDigit_ascii (List.all_eq_true.mp (Bool.and_eq_true_iff.mp h).2 c hc)

theorem nonemptyHex_ascii {value : Bytes} (h : isNonemptyHex value = true) :
    ∀ c ∈ value, c ≤ 0x7f :=
  fun c hc => hexDigit_ascii (List.all_eq_true.mp (Bool.and_eq_true_iff.mp h).2 c hc)

theorem digits_ascii {value : Bytes} {n : ℕ} (h : parseDigits value = some n) :
    ∀ c ∈ value, c ≤ 0x7f := by
  unfold parseDigits at h
  split at h
  · next hdigits =>
    intro c hc
    have hdigit : isDigit c = true := List.all_eq_true.mp hdigits.2 c hc
    exact hexDigit_ascii (by simp [isHexDigit, isLowerHexDigit, hdigit])
  · cases h

/-- A byte of a text is a colon or in one of the fields. -/
theorem mem_fields {b : Bytes} {c : UInt8} (h : c ∈ b) :
    c = colon ∨ ∃ field ∈ b.splitOn colon, c ∈ field := by
  have hjoin : ∀ fields : List Bytes, c ∈ [colon].intercalate fields →
      c = colon ∨ ∃ field ∈ fields, c ∈ field := by
    intro fields
    induction fields with
    | nil => simp
    | cons field fields ih =>
      cases fields with
      | nil => simpa using Or.inr
      | cons next rest =>
        rw [List.intercalate_cons_cons, List.mem_append, List.mem_append, List.mem_singleton]
        rintro ((hc | hc) | hc)
        · exact .inr ⟨field, by simp, hc⟩
        · exact .inl hc
        · rcases ih hc with hc | ⟨found, hfound, hc⟩
          · exact .inl hc
          · exact .inr ⟨found, List.mem_cons_of_mem _ hfound, hc⟩
  exact hjoin _ (by rwa [List.intercalate_splitOn])

theorem gcomm_ascii {remaining : Bytes} {gm : SealedGroupMessage}
    (h : parseGcomm remaining = some (.groupMessageV1 gm)) :
    gm.sealedHex = remaining ∧ ∀ c ∈ remaining, c ≤ 0x7f := by
  unfold parseGcomm at h
  split at h
  · next id epoch senderId pub msgId ciphertext signature hfields =>
    split at h
    · cases h
    · next hchecks =>
      obtain rfl := SealedOperation.groupMessageV1.inj (Option.some.inj h)
      refine ⟨rfl, fun c hc => ?_⟩
      simp only [Bool.or_eq_true, Bool.not_eq_true', not_or, Bool.not_eq_false] at hchecks
      obtain ⟨⟨⟨⟨⟨⟨hid, hepoch⟩, hsenderId⟩, hpub⟩, hmsgId⟩, hciphertext⟩, hsignature⟩ := hchecks
      obtain ⟨n, hn, -⟩ := Option.any_eq_true _ _ |>.mp hepoch
      rcases mem_fields hc with rfl | ⟨field, hfield, hc⟩
      · decide
      · simp only [hfields, List.mem_cons, List.not_mem_nil, or_false] at hfield
        rcases hfield with rfl | rfl | rfl | rfl | rfl | rfl | rfl
        · exact fixedHex_ascii hid c hc
        · exact digits_ascii hn c hc
        · exact fixedHex_ascii hsenderId c hc
        · exact fixedHex_ascii hpub c hc
        · exact fixedHex_ascii hmsgId c hc
        · exact nonemptyHex_ascii hciphertext c hc
        · exact fixedHex_ascii hsignature c hc
  · cases h

/-- A group message comes from the fields after its prefix. -/
theorem parse_groupMessage {payload : Bytes} {gm : SealedGroupMessage}
    (h : parseSealedOperation payload = some (.groupMessageV1 gm)) :
    parseGcomm gm.sealedHex = some (.groupMessageV1 gm) := by
  have hgcomm : ∀ remaining, parseGcomm remaining = some (.groupMessageV1 gm) →
      parseGcomm gm.sealedHex = some (.groupMessageV1 gm) := fun remaining hremaining =>
    (gcomm_ascii hremaining).1 ▸ hremaining
  obtain ⟨body, -, h⟩ := Option.bind_eq_some_iff.mp h
  split at h
  · cases h
  · split at h
    · cases h
    · unfold parseVersion1 at h
      split at h
      · cases h
      · split at h
        · cases h
        · split at h
          · split at h
            · unfold parseTip at h
              split at h
              · split at h <;> cases h
              · cases h
            · cases h
          · split at h
            · cases h
            · split at h
              · obtain ⟨_, -, h⟩ := Option.map_eq_some_iff.mp h
                cases h
              · split at h
                · obtain ⟨_, -, h⟩ := Option.bind_eq_some_iff.mp h
                  dsimp only at h
                  split at h
                  · cases h
                  · obtain ⟨_, -, h⟩ := Option.map_eq_some_iff.mp h
                    cases h
                · split at h
                  · unfold parseSelfStash at h
                    split at h <;> cases h
                  · split at h
                    · exact hgcomm _ h
                    · split at h
                      · unfold parseGctl at h
                        split at h
                        · split at h <;> cases h
                        · split at h <;> cases h
                        · cases h
                      · cases h

/-- Under the prefix, what is stored parses as the message it was. -/
theorem parse_stored {payload : Bytes} {gm : SealedGroupMessage}
    (h : parseSealedOperation payload = some (.groupMessageV1 gm)) :
    parseSealedOperation (ascii "ciph_msg:1:gcomm:" ++ fromUtf8Lossy gm.sealedHex) =
      some (.groupMessageV1 gm) := by
  have hgcomm := parse_groupMessage h
  have hprefix : ascii "ciph_msg:1:gcomm:" = [0x63, 0x69, 0x70, 0x68, 0x5f, 0x6d, 0x73, 0x67, 0x3a,
      0x31, 0x3a, 0x67, 0x63, 0x6f, 0x6d, 0x6d, 0x3a] := by decide
  rw [fromUtf8Lossy_ascii (gcomm_ascii hgcomm).2, hprefix, ← hgcomm]
  rfl

/-! ## Messages and bindings -/

/-- A group message as its fields decode. -/
structure Message where
  blindedGroupId : Bytes
  pub : Bytes
  sealedHex : Bytes

/-- A transaction of the blocks is the message. -/
def MessageOf (blocks : List RpcBlock) (txId : TxId) (m : Message) : Prop :=
  ∃ tx ∈ blocks.flatMap sealedOf, tx.txId = txId ∧ ∃ gm,
    parseSealedOperation tx.payload = some (.groupMessageV1 gm) ∧
      decodeFixedHex 32 gm.blindedGroupId = some m.blindedGroupId ∧
        decodeFixedHex 32 gm.senderPub = some m.pub ∧ gm.sealedHex = m.sealedHex

theorem MessageOf.unique {blocks : List RpcBlock} (hids : Identified blocks) {txId : TxId}
    {m m' : Message} (h : MessageOf blocks txId m) (h' : MessageOf blocks txId m') : m = m' := by
  obtain ⟨tx, htx, hid, gm, hparse, hgroup, hpub, hsealed⟩ := h
  obtain ⟨tx', htx', hid', gm', hparse', hgroup', hpub', hsealed'⟩ := h'
  obtain rfl := hids tx htx tx' htx' (hid.trans hid'.symm)
  obtain rfl := SealedOperation.groupMessageV1.inj (Option.some.inj (hparse.symm.trans hparse'))
  obtain ⟨id, pub, sealedHex⟩ := m
  obtain ⟨id', pub', sealedHex'⟩ := m'
  obtain rfl := Option.some.inj (hgroup.symm.trans hgroup')
  obtain rfl := Option.some.inj (hpub.symm.trans hpub')
  obtain rfl := hsealed.symm.trans hsealed'
  rfl

theorem MessageOf.mono {bs cs : List RpcBlock} (h : bs <+: cs) {txId : TxId} {m : Message}
    (hm : MessageOf bs txId m) : MessageOf cs txId m := by
  obtain ⟨tx, htx, hrest⟩ := hm
  obtain ⟨b, hb, hmem⟩ := List.mem_flatMap.mp htx
  exact ⟨tx, List.mem_flatMap.mpr ⟨b, h.subset hb, hmem⟩, hrest⟩

/-- Of a stored message the key can be read again. -/
theorem MessageOf.senderPub {blocks : List RpcBlock} {txId : TxId} {m : Message}
    (h : MessageOf blocks txId m) : senderPubOf m.sealedHex = some m.pub := by
  obtain ⟨tx, -, -, gm, hparse, -, hpub, hsealed⟩ := h
  rw [senderPubOf, ← hsealed, parse_stored hparse]
  exact hpub

section
variable {bindings : Partition Bytes Bytes} {sender : AddressPayload} {id pub : Bytes}

/-- A binding stays, whatever is checked. -/
theorem admit_kept {g p : Bytes} (h : get bindings g = some p) :
    get (admitGroupMessage bindings sender id pub).2 g = some p := by
  unfold admitGroupMessage
  split
  · exact h
  · unfold checkOrBind
    split
    · next hnone =>
      rw [get_put]
      split
      · next heq =>
        rw [heq, hnone] at h
        cases h
      · exact h
    · next old hold =>
      rw [get_put]
      split
      · next heq => rw [← hold, ← heq, h]
      · exact h

/-- What passes has its sender's key, and the id is bound to it. -/
theorem admit_passes (h : (admitGroupMessage bindings sender id pub).1 = true) :
    sender.matchesXonlyPubkey pub = true ∧
      get (admitGroupMessage bindings sender id pub).2 id = some pub := by
  unfold admitGroupMessage at h ⊢
  split at h
  · cases h
  · next hmatches =>
    have hmatches : sender.matchesXonlyPubkey pub = true := by simpa using hmatches
    refine ⟨hmatches, ?_⟩
    rw [if_neg (by simp [hmatches])]
    unfold checkOrBind at h ⊢
    split at h
    · simp [get_put]
    · next old hold =>
      have heq : old = pub := of_decide_eq_true h
      simp [get_put, heq]

end

/-- The P2PK address of a key: only its script's address matches the key. -/
theorem matches_eq {script : ScriptPublicKey} {a : AddressPayload} {pub : Bytes}
    (h : AddressPayload.tryFrom env script = some a) (hmatches : a.matchesXonlyPubkey pub = true) :
    a = AddressPayload.fromXonlyPubkey pub := by
  obtain ⟨hversion, hpub⟩ := of_decide_eq_true hmatches
  unfold AddressPayload.tryFrom at h
  dsimp only at h
  split at h
  · cases h
  · split at h
    · cases h
    · obtain rfl := Option.some.inj h
      have hlength : ((script.script.drop 1).take 32).length ≤ 32 := List.length_take_le _ _
      generalize (script.script.drop 1).take 32 = key at hpub hlength ⊢
      have hpayload : payload33 key = payload33 (pub.take 32) := by
        have hvalue : (payload33 key).toList = (key ++ List.replicate 33 0).take 33 := rfl
        have hpub : pub = key ++ List.replicate (32 - key.length) 0 := by
          rw [← hpub, hvalue, List.take_take, List.take_append, List.take_of_length_le (by omega),
            List.take_replicate]
          congr 2
          omega
        have hpublength : pub.length = 32 := by
          rw [hpub, List.length_append, List.length_replicate]
          omega
        refine List.Vector.eq _ _ ?_
        show (key ++ List.replicate 33 0).take 33 = (pub.take 32 ++ List.replicate 33 0).take 33
        rw [List.take_append, List.take_append, List.take_of_length_le (by omega : key.length ≤ 33),
          List.take_of_length_le hpublength.le, List.take_of_length_le (by omega : pub.length ≤ 33),
          List.take_replicate, List.take_replicate, hpublength, hpub, List.append_assoc,
          List.replicate_append_replicate]
        congr 2
        omega
      rw [AddressPayload.fromXonlyPubkey, hpayload]
    · obtain rfl := Option.some.inj h
      exact absurd hversion (by dsimp only; decide)
    · obtain rfl := Option.some.inj h
      exact absurd hversion (by dsimp only; decide)

/-- The address of a script. -/
def Standard (env : Env) (a : AddressPayload) : Prop :=
  ∃ script, AddressPayload.tryFrom env script = some a

theorem Standard.ne_default {a : AddressPayload} (h : Standard env a) : a ≠ default :=
  h.elim fun _ => tryFrom_ne_default

theorem Standard.p2pk {a : AddressPayload} {pub : Bytes} (h : Standard env a)
    (hmatches : a.matchesXonlyPubkey pub = true) : a = AddressPayload.fromXonlyPubkey pub :=
  h.elim fun _ hscript => matches_eq hscript hmatches

/-! ## What the rows say -/

/-- The message is its sender's own, and its id is bound to its key. -/
structure Admitted (owner : TxId → AddressPayload) (rows : Rows) (txId : TxId) (m : Message) :
    Prop where
  sender : owner txId = AddressPayload.fromXonlyPubkey m.pub
  matching : (owner txId).matchesXonlyPubkey m.pub = true
  bound : get rows.groupSenderBinding m.blindedGroupId = some m.pub

/-- The message is refused, now and later. -/
def Refused (owner : TxId → AddressPayload) (rows : Rows) (txId : TxId) (m : Message) : Prop :=
  (owner txId).matchesXonlyPubkey m.pub = false ∨
    ∃ pub ≠ m.pub, get rows.groupSenderBinding m.blindedGroupId = some pub

/-- The key names the group of its message. -/
def Names (blocks : List RpcBlock) (key : GroupMessageKeyByBlindedGroupId) (m : Message) : Prop :=
  MessageOf blocks key.txId m ∧ m.blindedGroupId = key.blindedGroupId

/-- Each row is of a message of the blocks; one with a sender is admitted, and has its payload. A push
is for a row with a sender. -/
structure Grouped (owner : TxId → AddressPayload) (blocks : List RpcBlock) (rows : Rows)
    (sent : List PushEvent) : Prop where
  payloads : ∀ txId payload, get rows.txIdToGroupMessage txId = some payload →
    ∃ m, MessageOf blocks txId m ∧ payload = m.sealedHex
  named : ∀ key a, get rows.groupMessageByBlindedGroupId key = some a → ∃ m, Names blocks key m
  admitted : ∀ key a, get rows.groupMessageByBlindedGroupId key = some a → a ≠ default →
    ∀ m, Names blocks key m → a = owner key.txId ∧ Admitted owner rows key.txId m ∧
      get rows.txIdToGroupMessage key.txId = some m.sealedHex
  pushed : ∀ push ∈ sent, push.kind = .groupMessage → ∃ key m, key.txId = push.txId ∧
    Names blocks key m ∧ push.blindedGroupId = some key.blindedGroupId ∧
      push.payload = some (fromUtf8Lossy m.sealedHex) ∧ push.sender ≠ default ∧
        get rows.groupMessageByBlindedGroupId key = some push.sender

section
variable {owner : TxId → AddressPayload} {blocks : List RpcBlock} {rows rows' : Rows}
  {sent : List PushEvent} {key : GroupMessageKeyByBlindedGroupId} {m : Message} {a : AddressPayload}

/-- Bindings stay. -/
def Binds (rows rows' : Rows) : Prop :=
  ∀ g pub, get rows.groupSenderBinding g = some pub → get rows'.groupSenderBinding g = some pub

theorem Admitted.mono (h : Binds rows rows') {txId : TxId} (hm : Admitted owner rows txId m) :
    Admitted owner rows' txId m :=
  ⟨hm.sender, hm.matching, h _ _ hm.bound⟩

theorem Refused.mono (h : Binds rows rows') {txId : TxId} (hm : Refused owner rows txId m) :
    Refused owner rows' txId m :=
  hm.imp id fun ⟨pub, hne, hpub⟩ => ⟨pub, hne, h _ _ hpub⟩

theorem Admitted.not_refused {txId : TxId} (h : Admitted owner rows txId m) :
    ¬ Refused owner rows txId m := by
  rintro (hno | ⟨pub, hne, hpub⟩)
  · rw [h.matching] at hno
    cases hno
  · exact hne (Option.some.inj (hpub.symm.trans h.bound))

theorem Names.mono {bs cs : List RpcBlock} (h : bs <+: cs) (hm : Names bs key m) : Names cs key m :=
  ⟨hm.1.mono h, hm.2⟩

/-- More blocks, of which a transaction id still identifies its transaction. -/
theorem Grouped.mono {bs cs : List RpcBlock} (hids : Identified cs) (hbs : bs <+: cs)
    (h : Grouped owner bs rows sent) : Grouped owner cs rows sent where
  payloads txId payload hget := by
    obtain ⟨m, hm, heq⟩ := h.payloads txId payload hget
    exact ⟨m, hm.mono hbs, heq⟩
  named key a hget := by
    obtain ⟨m, hm⟩ := h.named key a hget
    exact ⟨m, hm.mono hbs⟩
  admitted key a hget hne m hm := by
    obtain ⟨m', hm'⟩ := h.named key a hget
    obtain rfl := hm.1.unique hids (hm'.1.mono hbs)
    exact h.admitted key a hget hne m hm'
  pushed push hpush hkind := by
    obtain ⟨key, m, hid, hm, hrest⟩ := h.pushed push hpush hkind
    exact ⟨key, m, hid, hm.mono hbs, hrest⟩

/-- What leaves the group rows as they are. -/
theorem Grouped.same (h : Grouped owner blocks rows sent)
    (hindex : rows'.groupMessageByBlindedGroupId = rows.groupMessageByBlindedGroupId)
    (hpayloads : rows'.txIdToGroupMessage = rows.txIdToGroupMessage) (hbinds : Binds rows rows')
    {pushes : List PushEvent} (hpushes : ∀ push ∈ pushes, push.kind ≠ .groupMessage) :
    Grouped owner blocks rows' (sent ++ pushes) where
  payloads := hpayloads ▸ h.payloads
  named := hindex ▸ h.named
  admitted key a hget hne m hm := by
    rw [hindex] at hget
    obtain ⟨ha, hadmitted, hpayload⟩ := h.admitted key a hget hne m hm
    exact ⟨ha, hadmitted.mono hbinds, hpayloads ▸ hpayload⟩
  pushed push hpush hkind := by
    rcases List.mem_append.mp hpush with hpush | hpush
    · rw [hindex]
      exact h.pushed push hpush hkind
    · exact absurd hkind (hpushes push hpush)

/-- Bindings stay, and so do rows that have a sender, with their payloads. -/
structure Keeps (rows rows' : Rows) : Prop where
  binds : Binds rows rows'
  rows : ∀ key a, get rows.groupMessageByBlindedGroupId key = some a → a ≠ default →
    get rows'.groupMessageByBlindedGroupId key = some a ∧
      get rows'.txIdToGroupMessage key.txId = get rows.txIdToGroupMessage key.txId

theorem Keeps.refl (rows : Rows) : Keeps rows rows :=
  ⟨fun _ _ h => h, fun _ _ h _ => ⟨h, rfl⟩⟩

theorem Keeps.trans {rows'' : Rows} (h : Keeps rows rows') (h' : Keeps rows' rows'') :
    Keeps rows rows'' where
  binds g pub hpub := h'.binds g pub (h.binds g pub hpub)
  rows key a hget hne := by
    obtain ⟨hrow, hpayload⟩ := h.rows key a hget hne
    obtain ⟨hrow', hpayload'⟩ := h'.rows key a hrow hne
    exact ⟨hrow', hpayload'.trans hpayload⟩

/-- Storing a message again changes nothing of what has a sender. -/
theorem Grouped.stored_keeps (hids : Identified blocks) (h : Grouped owner blocks rows sent)
    (hm : Names blocks key m)
    (hindex : ∀ k, get rows'.groupMessageByBlindedGroupId k =
      if k = key then some (held (get rows.groupMessageByBlindedGroupId k) a)
      else get rows.groupMessageByBlindedGroupId k)
    (hpayloads : ∀ txId, get rows'.txIdToGroupMessage txId =
      if txId = key.txId then some m.sealedHex else get rows.txIdToGroupMessage txId)
    (hbinds : Binds rows rows') : Keeps rows rows' := by
  refine ⟨hbinds, fun k b hget hne => ⟨?_, ?_⟩⟩
  · rw [hindex]
    split
    · rw [hget, held]
      simp [hne]
    · exact hget
  · obtain ⟨m', hm'⟩ := h.named k b hget
    rw [hpayloads]
    split
    · next htx =>
      rw [(h.admitted k b hget hne m' hm').2.2, hm'.1.unique hids (htx ▸ hm.1)]
    · rfl

/-- A message is stored, with a sender that is admitted or not known; its push goes with it. -/
theorem Grouped.stored (hids : Identified blocks) (h : Grouped owner blocks rows sent)
    (hm : Names blocks key m)
    (hindex : ∀ k, get rows'.groupMessageByBlindedGroupId k =
      if k = key then some (held (get rows.groupMessageByBlindedGroupId k) a)
      else get rows.groupMessageByBlindedGroupId k)
    (hpayloads : ∀ txId, get rows'.txIdToGroupMessage txId =
      if txId = key.txId then some m.sealedHex else get rows.txIdToGroupMessage txId)
    (hbinds : Binds rows rows')
    (ha : a ≠ default → a = owner key.txId ∧ Admitted owner rows' key.txId m)
    {pushes : List PushEvent} (hpushes : ∀ push ∈ pushes, push.kind = .groupMessage →
      a ≠ default ∧ push.txId = key.txId ∧ push.sender = a ∧
        push.blindedGroupId = some key.blindedGroupId ∧
          push.payload = some (fromUtf8Lossy m.sealedHex)) :
    Grouped owner blocks rows' (sent ++ pushes) := by
  have hkeeps := (Grouped.stored_keeps hids h hm hindex hpayloads hbinds).rows
  refine ⟨fun txId payload hget => ?_, fun k b hget => ?_, fun k b hget hne m' hm' => ?_,
    fun push hpush hkind => ?_⟩
  · rw [hpayloads] at hget
    split at hget
    · next htx => exact ⟨m, htx ▸ hm.1, (Option.some.inj hget).symm⟩
    · exact h.payloads txId payload hget
  · rw [hindex] at hget
    split at hget
    · next hk => exact ⟨m, hk ▸ hm⟩
    · exact h.named k b hget
  · have hpayload : ∀ stored, get rows.txIdToGroupMessage k.txId = some stored →
        stored = m'.sealedHex → get rows'.txIdToGroupMessage k.txId = some m'.sealedHex := by
      rintro stored hstored rfl
      rw [hpayloads]
      split
      · next htx => rw [hm'.1.unique hids (htx ▸ hm.1)]
      · exact hstored
    rw [hindex] at hget
    split at hget
    · next hk =>
      subst hk
      obtain rfl := hm'.1.unique hids hm.1
      have hhere : get rows'.txIdToGroupMessage k.txId = some m'.sealedHex := by
        rw [hpayloads, if_pos rfl]
      unfold held at hget
      split at hget
      · next hold =>
        obtain ⟨old, hold⟩ : ∃ old, get rows.groupMessageByBlindedGroupId k = some old := by
          cases hrow : get rows.groupMessageByBlindedGroupId k with
          | none => simp [hrow] at hold
          | some old => exact ⟨old, rfl⟩
        rw [hold] at hget
        obtain rfl := Option.some.inj hget
        obtain ⟨hb, hadmitted, -⟩ := h.admitted k _ hold hne m' hm'
        exact ⟨hb, hadmitted.mono hbinds, hhere⟩
      · obtain rfl := Option.some.inj hget
        exact ⟨(ha hne).1, (ha hne).2, hhere⟩
    · obtain ⟨hb, hadmitted, hstored⟩ := h.admitted k b hget hne m' hm'
      exact ⟨hb, hadmitted.mono hbinds, hpayload _ hstored rfl⟩
  · rcases List.mem_append.mp hpush with hpush | hpush
    · obtain ⟨k, m', hid, hm', hgroup, htext, hne, hrow⟩ := h.pushed push hpush hkind
      exact ⟨k, m', hid, hm', hgroup, htext, hne, (hkeeps k _ hrow hne).1⟩
    · obtain ⟨hne, htx, hsender, hgroup, htext⟩ := hpushes push hpush hkind
      refine ⟨key, m, htx.symm, hm, hgroup, htext, hsender ▸ hne, ?_⟩
      rw [hindex, if_pos rfl, hsender, held]
      split
      · next hold =>
        obtain ⟨old, hrow⟩ : ∃ old, get rows.groupMessageByBlindedGroupId key = some old := by
          cases hrow : get rows.groupMessageByBlindedGroupId key with
          | none => simp [hrow] at hold
          | some old => exact ⟨old, rfl⟩
        rw [hrow] at hold ⊢
        rw [Option.getD_some, (h.admitted key old hrow hold m hm).1, (ha hne).1]
      · rfl

/-- A message that is refused has no row with a sender, so dropping a row of it keeps the rest. -/
theorem Grouped.dropped (hids : Identified blocks) (h : Grouped owner blocks rows sent)
    (hm : Names blocks key m) (hrefused : Refused owner rows key.txId m)
    (hindex : ∀ k, get rows'.groupMessageByBlindedGroupId k =
      if k = key then none else get rows.groupMessageByBlindedGroupId k)
    (hpayloads : ∀ txId, get rows'.txIdToGroupMessage txId =
      if txId = key.txId then none else get rows.txIdToGroupMessage txId)
    (hbinds : Binds rows rows') : Grouped owner blocks rows' sent ∧ Keeps rows rows' := by
  have hother : ∀ k b, get rows.groupMessageByBlindedGroupId k = some b → b ≠ default →
      k.txId ≠ key.txId := by
    intro k b hget hne htx
    obtain ⟨m', hm'⟩ := h.named k b hget
    have hadmitted := (h.admitted k b hget hne m' hm').2.1
    rw [htx, hm'.1.unique hids (htx ▸ hm.1)] at hadmitted
    exact hadmitted.not_refused hrefused
  have hkeeps : ∀ k b, get rows.groupMessageByBlindedGroupId k = some b → b ≠ default →
      get rows'.groupMessageByBlindedGroupId k = some b ∧
        get rows'.txIdToGroupMessage k.txId = get rows.txIdToGroupMessage k.txId := by
    intro k b hget hne
    have htx := hother k b hget hne
    rw [hindex, hpayloads, if_neg fun hk => htx (congrArg _ hk), if_neg htx]
    exact ⟨hget, rfl⟩
  have hrows : ∀ k b, get rows'.groupMessageByBlindedGroupId k = some b →
      get rows.groupMessageByBlindedGroupId k = some b := by
    intro k b hget
    rw [hindex] at hget
    split at hget
    · cases hget
    · exact hget
  refine ⟨⟨fun txId payload hget => ?_, fun k b hget => h.named k b (hrows k b hget),
    fun k b hget hne m' hm' => ?_, fun push hpush hkind => ?_⟩, hbinds, hkeeps⟩
  · rw [hpayloads] at hget
    split at hget
    · cases hget
    · exact h.payloads txId payload hget
  · obtain ⟨hb, hadmitted, hstored⟩ := h.admitted k b (hrows k b hget) hne m' hm'
    exact ⟨hb, hadmitted.mono hbinds, (hkeeps k b (hrows k b hget) hne).2.trans hstored⟩
  · obtain ⟨k, m', hid, hm', hgroup, htext, hne, hrow⟩ := h.pushed push hpush hkind
    exact ⟨k, m', hid, hm', hgroup, htext, hne, (hkeeps k _ hrow hne).1⟩

end

/-! ## Steps -/

/-- Rows and payloads of other transactions are as before. -/
def Apart (txId : TxId) (rows rows' : Rows) : Prop :=
  ∀ key : GroupMessageKeyByBlindedGroupId, key.txId ≠ txId →
    get rows'.groupMessageByBlindedGroupId key = get rows.groupMessageByBlindedGroupId key ∧
      get rows'.txIdToGroupMessage key.txId = get rows.txIdToGroupMessage key.txId

/-- What waits is of the record's transaction, and of one of the messages. -/
def Waits (blocks : List RpcBlock) (p : Acceptance) : Prop :=
  ∀ k key, .groupMessageByBlindedGroupId key ∈ entriesOf p k →
    key.txId = k.txId ∧ ∃ m, Names blocks key m

section
variable {owner : TxId → AddressPayload} {blocks : List RpcBlock} {s : Sighting}
  {op : SealedOperation} {rows : Rows} {sent : List PushEvent} {w : Written}

/-- The operations that are no group messages leave the group rows as they are. -/
theorem handleOperation_other (h : handleOperation s op rows = some w)
    (hop : opKind op ≠ .groupMessage) :
    w.rows.groupMessageByBlindedGroupId = rows.groupMessageByBlindedGroupId ∧
      w.rows.txIdToGroupMessage = rows.txIdToGroupMessage ∧
        w.rows.groupSenderBinding = rows.groupSenderBinding := by
  cases op with
  | sealedMessageOrSealedHandshakeVNone sealedHex =>
    obtain rfl := Option.some.inj h
    cases hsender : s.sender <;> simp [handleHandshake, insertHandshake, hsender]
  | sealedHandshakeV2 sealedHex =>
    obtain rfl := Option.some.inj h
    cases hsender : s.sender <;> simp [handleHandshakeV2, insertHandshake, hsender]
  | contextualMessageV1 cm =>
    obtain rfl := Option.some.inj h
    cases htag : cm.inboxTag.bind (decodeFixedHex 16) <;> cases hsender : s.sender <;>
      simp [handleContextualMessage, htag, hsender]
  | paymentV1 sealedHex =>
    obtain rfl := Option.some.inj h
    cases hsender : s.sender <;> simp [handlePayment, hsender]
  | selfStashV1 stash =>
    obtain rfl := Option.some.inj h
    cases hsender : s.sender <;> simp [handleSelfStash, hsender]
  | groupMessageV1 gm => exact absurd rfl hop
  | groupControlV1 gc =>
    obtain ⟨recipient, -, rfl⟩ := handleGroupControl_some h
    cases hrecipient : recipient <;> cases hsender : s.sender <;>
      simp [insertGroupControl, hsender]

theorem admits_other (rows : Rows) (a : AddressPayload) (hop : opKind op ≠ .groupMessage) :
    admits rows a op = true := by
  cases op <;> first | rfl | exact absurd rfl hop

/-- A group message, seen with a sender or without. -/
theorem Grouped.inserted (hids : Identified blocks) (h : Grouped owner blocks rows sent)
    {m : Message} (hm : MessageOf blocks s.txId m)
    (hsender : ∀ a ∈ s.sender, a = owner s.txId ∧ Standard env a)
    (hw : w = insertGroupMessage s m.sealedHex m.blindedGroupId m.pub rows) :
    Grouped owner blocks w.rows (sent ++ w.pushes) ∧ Keeps rows w.rows ∧ Apart s.txId rows w.rows ∧
      ∀ key, .groupMessageByBlindedGroupId key ∈ w.entries →
        key.txId = s.txId ∧ ∃ m, Names blocks key m := by
  let key : GroupMessageKeyByBlindedGroupId :=
    ⟨m.blindedGroupId, s.header.timestamp, s.header.hash, 1, s.txId⟩
  have hnames : Names blocks key m := ⟨hm, rfl⟩
  have happart : ∀ rows' : Rows, ∀ a : AddressPayload,
      (∀ k, get rows'.groupMessageByBlindedGroupId k =
        if k = key then some (held (get rows.groupMessageByBlindedGroupId k) a)
        else get rows.groupMessageByBlindedGroupId k) →
      (∀ txId, get rows'.txIdToGroupMessage txId =
        if txId = key.txId then some m.sealedHex else get rows.txIdToGroupMessage txId) →
      Apart s.txId rows rows' := by
    intro rows' a hindex hpayloads k hk
    rw [hindex, hpayloads, if_neg fun heq => hk (congrArg _ heq), if_neg hk]
    exact ⟨rfl, rfl⟩
  subst hw
  cases hs : s.sender with
  | none =>
    have hindex : ∀ k, get (insertGroupMessage s m.sealedHex m.blindedGroupId m.pub
        rows).rows.groupMessageByBlindedGroupId k =
        if k = key then some (held (get rows.groupMessageByBlindedGroupId k) default)
        else get rows.groupMessageByBlindedGroupId k := by
      intro k
      simp [insertGroupMessage, hs, get_fill, key]
    have hpayloads : ∀ txId, get (insertGroupMessage s m.sealedHex m.blindedGroupId m.pub
        rows).rows.txIdToGroupMessage txId =
        if txId = key.txId then some m.sealedHex else get rows.txIdToGroupMessage txId := by
      intro txId
      simp [insertGroupMessage, hs, get_put, key]
    have hbinds : Binds rows (insertGroupMessage s m.sealedHex m.blindedGroupId m.pub rows).rows := by
      intro g pub hpub
      simpa [insertGroupMessage, hs] using hpub
    refine ⟨h.stored hids hnames hindex hpayloads hbinds (fun hne => absurd rfl hne) fun push hpush => ?_,
      h.stored_keeps hids hnames hindex hpayloads hbinds, happart _ _ hindex hpayloads,
      fun k hk => ?_⟩
    · simp [insertGroupMessage, hs] at hpush
    · simp only [insertGroupMessage, hs, List.mem_singleton,
        InsertionEntry.groupMessageByBlindedGroupId.injEq] at hk
      subst hk
      exact ⟨rfl, m, hnames⟩
  | some a =>
    obtain ⟨rfl, hstandard⟩ := hsender a hs
    have hbinds : Binds rows { rows with groupSenderBinding :=
        (admitGroupMessage rows.groupSenderBinding (owner s.txId) m.blindedGroupId m.pub).2 } :=
      fun g pub hpub => admit_kept hpub
    cases hpasses :
        (admitGroupMessage rows.groupSenderBinding (owner s.txId) m.blindedGroupId m.pub).1 with
    | false =>
      have hrows : (insertGroupMessage s m.sealedHex m.blindedGroupId m.pub rows) =
          ⟨{ rows with groupSenderBinding := (admitGroupMessage rows.groupSenderBinding
            (owner s.txId) m.blindedGroupId m.pub).2 }, [], []⟩ := by
        simp [insertGroupMessage, hs, hpasses]
      rw [hrows]
      have hindex : ({ rows with groupSenderBinding := (admitGroupMessage rows.groupSenderBinding
          (owner s.txId) m.blindedGroupId m.pub).2 } : Rows).groupMessageByBlindedGroupId =
          rows.groupMessageByBlindedGroupId := rfl
      exact ⟨h.same hindex rfl hbinds (by simp), ⟨hbinds, fun k b hget _ => ⟨hget, rfl⟩⟩,
        fun _ _ => ⟨rfl, rfl⟩, fun _ hk => absurd hk List.not_mem_nil⟩
    | true =>
      obtain ⟨hmatches, hbound⟩ := admit_passes hpasses
      have hindex : ∀ k, get (insertGroupMessage s m.sealedHex m.blindedGroupId m.pub
          rows).rows.groupMessageByBlindedGroupId k =
          if k = key then some (held (get rows.groupMessageByBlindedGroupId k) (owner s.txId))
          else get rows.groupMessageByBlindedGroupId k := by
        intro k
        simp [insertGroupMessage, hs, hpasses, get_fill, key]
      have hpayloads : ∀ txId, get (insertGroupMessage s m.sealedHex m.blindedGroupId m.pub
          rows).rows.txIdToGroupMessage txId =
          if txId = key.txId then some m.sealedHex else get rows.txIdToGroupMessage txId := by
        intro txId
        simp [insertGroupMessage, hs, hpasses, get_put, key]
      have hbinding : (insertGroupMessage s m.sealedHex m.blindedGroupId m.pub
          rows).rows.groupSenderBinding = (admitGroupMessage rows.groupSenderBinding
            (owner s.txId) m.blindedGroupId m.pub).2 := by
        simp [insertGroupMessage, hs, hpasses]
      have hbinds : Binds rows (insertGroupMessage s m.sealedHex m.blindedGroupId m.pub rows).rows :=
        fun g pub hpub => hbinding ▸ admit_kept hpub
      refine ⟨h.stored hids hnames hindex hpayloads hbinds
        (fun _ => ⟨rfl, hstandard.p2pk hmatches, hmatches, hbinding ▸ hbound⟩) fun push hpush _ => ?_,
        h.stored_keeps hids hnames hindex hpayloads hbinds, happart _ _ hindex hpayloads,
        fun k hk => ?_⟩
      · simp only [insertGroupMessage, hs, hpasses, if_true, List.mem_singleton] at hpush
        subst hpush
        exact ⟨hstandard.ne_default, rfl, rfl, rfl, rfl⟩
      · simp [insertGroupMessage, hs, hpasses] at hk

/-- A handler keeps what is known of the group rows. -/
theorem Grouped.handled (hids : Identified blocks) (h : Grouped owner blocks rows sent)
    {tx : RpcTransaction} (htx : tx ∈ blocks.flatMap sealedOf) (htxId : s.txId = tx.txId)
    (hparsed : parseSealedOperation tx.payload = some op)
    (hsender : ∀ a ∈ s.sender, a = owner s.txId ∧ Standard env a) (hw : Handled env s op rows w) :
    Grouped owner blocks w.rows (sent ++ w.pushes) ∧ Keeps rows w.rows ∧ Apart s.txId rows w.rows ∧
      ∀ key, .groupMessageByBlindedGroupId key ∈ w.entries →
        key.txId = s.txId ∧ ∃ m, Names blocks key m := by
  unfold Handled at hw
  split at hw
  · by_cases hop : opKind op = .groupMessage
    · cases op with
      | groupMessageV1 gm =>
        obtain ⟨id, pub, hid, hpub, hw⟩ := handleGroupMessage_some hw
        exact h.inserted hids (m := ⟨id, pub, gm.sealedHex⟩)
          ⟨tx, htx, htxId.symm, gm, hparsed, hid, hpub, rfl⟩ hsender hw
      | _ => cases hop
    · obtain ⟨hindex, hpayloads, hbinding⟩ := handleOperation_other hw hop
      have hbinds : Binds rows w.rows := fun g pub hpub => hbinding ▸ hpub
      have hwrites := handleOperation_writes hw fun a _ => admits_other rows a hop
      refine ⟨h.same hindex hpayloads hbinds fun push hpush hkind => ?_,
        ⟨hbinds, fun key a hget _ => ?_⟩, fun key _ => ?_, fun key hkey => ?_⟩
      · exact hop ((handleOperation_pushes hw push hpush).symm.trans hkind)
      · exact ⟨hindex ▸ hget, by rw [hpayloads]⟩
      · rw [hindex, hpayloads]
        exact ⟨rfl, rfl⟩
      · rw [hwrites.entries] at hkey
        split at hkey
        · exact absurd (slotsOf_spec hkey).1.symm hop
        · exact absurd hkey List.not_mem_nil
  · subst hw
    exact ⟨by simpa using h, .refl rows, fun _ _ => ⟨rfl, rfl⟩,
      fun _ hkey => absurd hkey List.not_mem_nil⟩

/-! ### Answers -/

variable {r : Resolution} {key : GroupMessageKeyByBlindedGroupId} {m : Message} {rows' : Rows}
  {pushes : List PushEvent}

/-- What does not pass is refused for good. -/
theorem refused_of_unadmitted {txId : TxId}
    (h : (admitGroupMessage rows.groupSenderBinding (owner txId) m.blindedGroupId m.pub).1 = false) :
    Refused owner rows txId m := by
  unfold admitGroupMessage at h
  split at h
  · next hmatches => exact .inl (by simpa using hmatches)
  · unfold checkOrBind at h
    split at h
    · cases h
    · next old hold => exact .inr ⟨old, of_decide_eq_false h, hold⟩

theorem not_refused_of_admitted {txId : TxId}
    (h : (admitGroupMessage rows.groupSenderBinding (owner txId) m.blindedGroupId m.pub).1 = true) :
    ¬ Refused owner rows txId m := by
  obtain ⟨hmatches, hbound⟩ := admit_passes h
  rintro (hno | ⟨pub, hne, hpub⟩)
  · rw [hmatches] at hno
    cases hno
  · exact hne (Option.some.inj ((admit_kept hpub).symm.trans hbound))

/-- The stored payload is that of the message, so the check is the one at its sighting. -/
theorem resolveGroupMessage_eq (hm : Names blocks key m)
    (hstored : get r.snapshot.txIdToGroupMessage key.txId = some m.sealedHex) (rows : Rows) :
    resolveGroupMessage r key rows =
      let admitted := admitGroupMessage rows.groupSenderBinding r.sender m.blindedGroupId m.pub
      let rows := { rows with groupSenderBinding := admitted.2 }
      some (if admitted.1 then
        ({ rows with
            groupMessageByBlindedGroupId :=
              fill rows.groupMessageByBlindedGroupId key (some r.sender) },
          [{ r.push .groupMessage default default key.txId (some m.sealedHex) key.blockTime with
            blindedGroupId := some key.blindedGroupId }])
      else (dropGroupMessage key rows, [])) := by
  obtain ⟨⟨tx, -, -, gm, hparse, hgroup, hpub, hsealed⟩, hname⟩ := hm
  have hparsed := parse_stored hparse
  rw [hsealed] at hparsed
  unfold resolveGroupMessage
  rw [hstored, Option.bind_some, hparsed]
  dsimp only
  rw [hpub, Option.map_some, hname]

/-- An answer for another row leaves the group rows as they are. -/
theorem resolveEntry_other {entry : Slot} (hentry : kindOf entry ≠ .groupMessage)
    (h : resolveEntry r entry rows = some (rows', pushes)) :
    rows'.groupMessageByBlindedGroupId = rows.groupMessageByBlindedGroupId ∧
      rows'.txIdToGroupMessage = rows.txIdToGroupMessage ∧
        rows'.groupSenderBinding = rows.groupSenderBinding ∧
          ∀ push ∈ pushes, push.kind ≠ .groupMessage := by
  cases entry with
  | groupMessageByBlindedGroupId key => exact absurd rfl hentry
  | paymentByReceiver key =>
    obtain ⟨rfl, rfl⟩ := Prod.ext_iff.mp (Option.some.inj h)
    refine ⟨rfl, rfl, rfl, fun push hpush => ?_⟩
    simp only [resolvePayment] at hpush
    split at hpush
    · obtain rfl := List.mem_singleton.mp hpush
      simp [Resolution.push]
    · cases hpush
  | _ =>
    obtain ⟨rfl, rfl⟩ := Prod.ext_iff.mp (Option.some.inj h)
    exact ⟨rfl, rfl, rfl, by simp [Resolution.push]⟩

/-- In the middle of an answer for a transaction. -/
structure Answering (owner : TxId → AddressPayload) (blocks : List RpcBlock) (txId : TxId)
    (before rows : Rows) (sent : List PushEvent) : Prop where
  grouped : Grouped owner blocks rows sent
  keeps : Keeps before rows
  others : Apart txId before rows
  payload : ∀ m, MessageOf blocks txId m → Refused owner rows txId m ∨
    get rows.txIdToGroupMessage txId = get before.txIdToGroupMessage txId

theorem Answering.entry (hids : Identified blocks) {txId : TxId}
    (h : Answering owner blocks txId r.snapshot rows sent)
    (hsnapshot : ∀ payload, get r.snapshot.txIdToGroupMessage txId = some payload →
      ∃ m, MessageOf blocks txId m ∧ payload = m.sealedHex)
    (hsender : r.sender = owner txId) (hstandard : Standard env (owner txId)) {entry : Slot}
    (hentry : ∀ key, entry = .groupMessageByBlindedGroupId key →
      key.txId = txId ∧ ∃ m, Names blocks key m)
    (hstep : resolveEntry r entry rows = some (rows', pushes)) :
    Answering owner blocks txId r.snapshot rows' (sent ++ pushes) := by
  by_cases hkind : kindOf entry = .groupMessage
  · obtain ⟨key, rfl⟩ : ∃ key, entry = .groupMessageByBlindedGroupId key := by
      cases entry <;> first | exact ⟨_, rfl⟩ | cases hkind
    obtain ⟨rfl, m, hm⟩ := hentry key rfl
    obtain ⟨payload, hpayload, -⟩ := Option.bind_eq_some_iff.mp hstep
    obtain ⟨m', hm', rfl⟩ := hsnapshot payload hpayload
    obtain rfl := hm'.unique hids hm.1
    have heq := resolveGroupMessage_eq hm hpayload rows
    rw [hsender] at heq
    cases hpasses :
        (admitGroupMessage rows.groupSenderBinding (owner key.txId) m'.blindedGroupId m'.pub).1 with
    | true =>
      obtain ⟨hmatches, hbound⟩ := admit_passes hpasses
      have hresult := hstep.symm.trans heq
      simp only [hpasses, if_true, Option.some.injEq, Prod.mk.injEq] at hresult
      obtain ⟨hrows, rfl⟩ := hresult
      have hstored : get rows.txIdToGroupMessage key.txId = some m'.sealedHex :=
        ((h.payload m' hm').resolve_left (not_refused_of_admitted hpasses)).trans hpayload
      have hindex : ∀ k, get rows'.groupMessageByBlindedGroupId k =
          if k = key then some (held (get rows.groupMessageByBlindedGroupId k) (owner key.txId))
          else get rows.groupMessageByBlindedGroupId k := by
        intro k
        rw [hrows]
        dsimp only
        rw [get_fill, Option.getD_some]
      have hkept : rows'.txIdToGroupMessage = rows.txIdToGroupMessage := hrows ▸ rfl
      have hpayloads : ∀ txId, get rows'.txIdToGroupMessage txId =
          if txId = key.txId then some m'.sealedHex else get rows.txIdToGroupMessage txId := by
        intro txId
        rw [hkept]
        split
        · next htx => rw [htx, hstored]
        · rfl
      have hbinds : Binds rows rows' := fun g pub hpub => hrows ▸ admit_kept hpub
      have hkeeps := h.grouped.stored_keeps hids hm hindex hpayloads hbinds
      have hadmitted : Admitted owner rows' key.txId m' :=
        ⟨hstandard.p2pk hmatches, hmatches, hrows ▸ hbound⟩
      refine ⟨h.grouped.stored hids hm hindex hpayloads hbinds
        (fun _ => ⟨rfl, hadmitted⟩) fun push hpush _ => ?_, h.keeps.trans hkeeps,
        fun k hk => ?_, fun m hm => ?_⟩
      · obtain rfl := List.mem_singleton.mp hpush
        exact ⟨hstandard.ne_default, rfl, hsender, rfl, rfl⟩
      · rw [hindex, if_neg fun heq => hk (congrArg _ heq), hkept]
        exact h.others k hk
      · exact (h.payload m hm).imp (·.mono hbinds) (hkept ▸ ·)
    | false =>
      have hresult := hstep.symm.trans heq
      simp only [hpasses, Bool.false_eq_true, if_false, Option.some.injEq, Prod.mk.injEq] at hresult
      obtain ⟨rfl, rfl⟩ := hresult
      have hrefused := refused_of_unadmitted hpasses
      have hbinds : Binds rows (dropGroupMessage key { rows with
          groupSenderBinding := (admitGroupMessage rows.groupSenderBinding (owner key.txId)
            m'.blindedGroupId m'.pub).2 }) := fun g pub hpub => admit_kept hpub
      obtain ⟨hgrouped, hkeeps⟩ := h.grouped.dropped hids hm hrefused
        (fun k => get_erase _ _ k) (fun txId => get_erase _ _ txId) hbinds
      refine ⟨by simpa using hgrouped, h.keeps.trans hkeeps, fun k hk => ?_, fun m hm => ?_⟩
      · have hrow : get (erase rows.groupMessageByBlindedGroupId key) k =
            get rows.groupMessageByBlindedGroupId k := by
          rw [get_erase, if_neg fun heq => hk (congrArg _ heq)]
        have hstored : get (erase rows.txIdToGroupMessage key.txId) k.txId =
            get rows.txIdToGroupMessage k.txId := by
          rw [get_erase, if_neg hk]
        exact ⟨hrow.trans (h.others k hk).1, hstored.trans (h.others k hk).2⟩
      · obtain rfl := hm.unique hids hm'
        exact .inl (hrefused.mono hbinds)
  · obtain ⟨hindex, hpayloads, hbinding, hpushes⟩ := resolveEntry_other hkind hstep
    have hbinds : Binds rows rows' := fun g pub hpub => hbinding ▸ hpub
    refine ⟨h.grouped.same hindex hpayloads hbinds hpushes,
      h.keeps.trans ⟨hbinds, fun key a hget _ => ⟨hindex ▸ hget, by rw [hpayloads]⟩⟩,
      fun key hkey => ?_, fun m hm => ?_⟩
    · rw [hindex, hpayloads]
      exact h.others key hkey
    · exact (h.payload m hm).imp (·.mono hbinds) fun hsame => by rw [hpayloads, hsame]

end

/-! ## Runs -/

theorem keyByTxId_txId {p : Acceptance} {txId : TxId} {key : AcceptanceKey}
    (h : keyByTxId p txId = .ok (some key)) : key ∈ keys p ∧ key.txId = txId := by
  have hends := keyByTxId_ends p txId
  rw [h] at hends
  exact hends.1 key rfl

/-- Whoever tells the sender of a transaction names its owner. -/
structure Owned (env : Env) (owner : TxId → AddressPayload) (events : List Event) : Prop where
  answers : ∀ address txId daa, Event.resolved address txId daa ∈ events →
    ∀ a, AddressPayload.tryFrom env address = some a → a = owner txId
  senders : ∀ s ∈ sightings [] (handled (blocksOf events)), ∀ a, senderIn env s.1 s.2 = some a →
    a = owner s.2.txId

theorem Owned.of_before {owner : TxId → AddressPayload} {done events : List Event}
    (h : done <+: events) (howned : Owned env owner events) : Owned env owner done where
  answers address txId daa he := howned.answers address txId daa (h.subset he)
  senders s hs := howned.senders s ((sightings_before (by
    obtain ⟨rest, hrest⟩ := h
    exact before_all hrest.symm)).subset hs)

section
variable {owner : TxId → AddressPayload}

theorem Waits.mono {bs cs : List RpcBlock} (h : bs <+: cs) {p : Acceptance} (hp : Waits bs p) :
    Waits cs p := by
  intro k key hkey
  obtain ⟨htxId, m, hm⟩ := hp k key hkey
  exact ⟨htxId, m, hm.1.mono h, hm.2⟩

/-- The rows, the pushes and the records agree with the blocks. -/
def Agree (owner : TxId → AddressPayload) (blocks : List RpcBlock) (db : Database) : Prop :=
  Grouped owner blocks db.rows db.pushes ∧ Waits blocks db.acceptance

theorem agree_empty (owner : TxId → AddressPayload) : Agree owner [] .empty := by
  refine ⟨⟨fun _ _ h => ?_, fun _ _ h => ?_, fun _ _ h => ?_, fun _ h => ?_⟩, fun _ _ h => ?_⟩
  · cases h
  · cases h
  · cases h
  · exact absurd h List.not_mem_nil
  · exact absurd h List.not_mem_nil

variable {events done rest : List Event} {b : RpcBlock} {tx : RpcTransaction} {op : SealedOperation}
  {wtx wtx' db db' : Database}

/-- One transaction of a further block. -/
theorem Agree.indexed (hids : Identified (handled (blocksOf events))) (howned : Owned env owner events)
    (hevents : events = done ++ .block b :: rest)
    (hindexes : Indexes env done b tx op wtx wtx')
    (h : Agree owner (handled (blocksOf (done ++ [.block b]))) wtx) :
    Agree owner (handled (blocksOf (done ++ [.block b]))) wtx' ∧ Keeps wtx.rows wtx'.rows ∧
      Apart tx.txId wtx.rows wtx'.rows := by
  obtain ⟨hgrouped, hwaits⟩ := h
  have hwhole : handled (blocksOf (done ++ [.block b])) <+: handled (blocksOf events) :=
    before_all (by rw [hevents, List.append_cons])
  have htx : tx ∈ (handled (blocksOf (done ++ [.block b]))).flatMap sealedOf := by
    rw [hindexes.further hids hevents]
    exact List.mem_flatMap.mpr ⟨b, by simp, hindexes.mem_sealed⟩
  have hsender : ∀ a ∈ senderIn env (handled (blocksOf done)) tx,
      a = owner tx.txId ∧ Standard env a := fun a ha =>
    ⟨howned.senders _ (hindexes.seen hids hevents) a ha, senderIn_standard ha⟩
  obtain ⟨w, owners, hhandled, -, rfl⟩ := indexTransaction_ok hindexes.indexed
  obtain ⟨hgrouped, hkeeps, hother, hentries⟩ :=
    hgrouped.handled (hids.of_before hwhole) htx rfl hindexes.parsed hsender hhandled
  refine ⟨⟨hgrouped, fun k key hkey => ?_⟩, hkeeps, hother⟩
  dsimp only at hkey
  rw [entriesOf_insertAcceptance] at hkey
  split at hkey
  · next hk =>
    rcases List.mem_append.mp hkey with hkey | hkey
    · exact hwaits k key hkey
    · rw [hk]
      exact hentries key hkey
  · exact hwaits k key hkey

/-- An answer for a transaction. -/
theorem Agree.resolved (hids : Identified (handled (blocksOf done)))
    {address : ScriptPublicKey} {txId : TxId} {daa : ℕ}
    (howner : ∀ a, AddressPayload.tryFrom env address = some a → a = owner txId)
    (h : Agree owner (handled (blocksOf done)) db)
    (hanswer : handleSenderAddress env address txId daa db = .ok db') :
    Agree owner (handled (blocksOf done)) db' ∧ Keeps db.rows db'.rows ∧
      Apart txId db.rows db'.rows := by
  obtain ⟨hgrouped, hwaits⟩ := h
  obtain ⟨sender, key, rows, pushes, hsender, hkey, hresolve, rfl⟩ := handleSenderAddress_ok hanswer
  obtain ⟨-, hkey⟩ := keyByTxId_txId hkey
  have hown := howner sender hsender
  have hanswered := resolveEntries_inv
    (fun rows sent => Answering owner (handled (blocksOf done)) txId db.rows rows sent)
    (fun entry hentry rows sent rows' pushes hinv hstep =>
      hinv.entry (r := ⟨sender, daa, db.rows⟩) hids (fun payload hpayload => hgrouped.payloads _ _ hpayload)
        hown ⟨address, hown ▸ hsender⟩
        (fun k hk => by
          obtain ⟨htxId, hm⟩ := hwaits key k (hk ▸ hentry)
          exact ⟨htxId.trans hkey, hm⟩) hstep)
    db.pushes ⟨hgrouped, .refl _, fun _ _ => ⟨rfl, rfl⟩, fun _ _ => .inr rfl⟩ hresolve
  refine ⟨⟨hanswered.grouped, fun k entry hentry => ?_⟩, hanswered.keeps, hanswered.others⟩
  dsimp only at hentry
  rw [entriesOf_cleared] at hentry
  split at hentry
  · exact absurd hentry List.not_mem_nil
  · exact hwaits k entry hentry

theorem Agree.untouched {blocks : List RpcBlock} (h : Agree owner blocks db)
    (hsame : Untouched db db') : Agree owner blocks db' := by
  obtain ⟨hgrouped, hwaits⟩ := h
  refine ⟨?_, fun k key hkey => hwaits k key (hsame.entries k ▸ hkey)⟩
  rw [hsame.rows, hsame.pushes]
  exact hgrouped

theorem Agree.mono {bs cs : List RpcBlock} (hids : Identified cs) (hbs : bs <+: cs)
    (h : Agree owner bs db) : Agree owner cs db :=
  ⟨h.1.mono hids hbs, h.2.mono hbs⟩

/-- The header of the next block changes nothing. -/
theorem Agree.header (hids : Identified (handled (blocksOf events)))
    (hevents : events = done ++ .block b :: rest)
    (h : Agree owner (handled (blocksOf done)) db) :
    Agree owner (handled (blocksOf (done ++ [.block b]))) (ChatRuns.begun b db) := by
  have hwhole : handled (blocksOf (done ++ [.block b])) <+: handled (blocksOf events) :=
    before_all (by rw [hevents, List.append_cons])
  refine Agree.mono (hids.of_before hwhole) ?_ h
  rw [blocksOf_append]
  exact handled_before _ _

theorem agree_run (hids : Identified (handled (blocksOf events))) (howned : Owned env owner events)
    (hrun : run env events .empty = .ok db) : Agree owner (handled (blocksOf events)) db := by
  have hsame : ∀ (done : List Event) (e : Event), blocksOf [e] = [] →
      blocksOf (done ++ [e]) = blocksOf done := by
    intro done e he
    rw [blocksOf_append, he, List.append_nil]
  refine run_inv (P := fun events db => Agree owner (handled (blocksOf events)) db) hids
    (agree_empty owner) ?_ ?_ ?_ ?_ ?_ hrun
  · intro done b rest db hevents _ h
    exact h.header hids hevents
  · intro done b rest tx op wtx wtx' hevents hindexes h
    exact (h.indexed hids howned hevents hindexes).1
  · intro done c rest db db' _ _ h hchange
    rw [hsame done _ rfl]
    exact h.untouched (handleVcc_untouched hchange)
  · intro done address txId daa rest db db' hevents _ h hanswer
    rw [hsame done _ rfl]
    exact (h.resolved (hids.of_before (before_all hevents))
      (howned.answers address txId daa (by simp [hevents])) hanswer).1
  · intro done txId rest db _ h
    rw [hsame done _ rfl]
    exact h

/-- No event takes a binding or a row with a sender back. -/
theorem keeps_step (hids : Identified (handled (blocksOf events))) (howned : Owned env owner events)
    {e : Event} (hevents : events = done ++ e :: rest) (hdb : run env done .empty = .ok db)
    (hstep : handle env e db = .ok db') : Keeps db.rows db'.rows := by
  have hbefore : Identified (handled (blocksOf done)) := hids.of_before (before_all hevents)
  have hagree : Agree owner (handled (blocksOf done)) db :=
    agree_run hbefore (howned.of_before ⟨_, hevents.symm⟩) hdb
  cases e with
  | block b =>
    exact (block_inv (Q := fun wtx => Agree owner (handled (blocksOf (done ++ [.block b]))) wtx ∧
      Keeps db.rows wtx.rows) hids hevents hdb
      ⟨hagree.header hids hevents, .refl _⟩
      (fun tx op wtx wtx' hindexes ⟨hwtx, hkeeps⟩ => by
        obtain ⟨hwtx', hkeeps', -⟩ := hwtx.indexed hids howned hevents hindexes
        exact ⟨hwtx', hkeeps.trans hkeeps'⟩) hstep).2
  | change c =>
    rw [(handleVcc_untouched hstep).rows]
    exact .refl _
  | resolved address txId daa =>
    exact (hagree.resolved hbefore (howned.answers address txId daa (by simp [hevents])) hstep).2.1
  | read txId =>
    obtain ⟨_, -, rfl⟩ := map_ok hstep
    exact .refl _

theorem keeps_run (hids : Identified (handled (blocksOf events))) (howned : Owned env owner events)
    (hevents : events = done ++ rest) (hdb : run env done .empty = .ok db)
    (hrun : run env events .empty = .ok db') : Keeps db.rows db'.rows := by
  have hrest : foldSteps (handle env) rest db = .ok db' := by
    rw [run, hevents, foldSteps_append] at hrun
    rwa [show foldSteps (handle env) done .empty = .ok db from hdb] at hrun
  refine steps_inv (fun _ s => Keeps db.rows s.rows) (fun earlier e later hrest s s' hs hkeeps hstep =>
    hkeeps.trans ?_) (.refl _) hrest
  have hwhole : events = (done ++ earlier) ++ e :: later := by
    rw [hevents, hrest, List.append_assoc]
  refine keeps_step hids howned hwhole ?_ hstep
  rw [run, foldSteps_append, show foldSteps (handle env) done .empty = .ok db from hdb]
  exact hs

/-- What the block of a transaction holds when the transaction is looked at. -/
theorem Agree.begun (hids : Identified (handled (blocksOf events))) (howned : Owned env owner events)
    (hevents : events = done ++ .block b :: rest) (hindexes : Indexes env done b tx op wtx wtx') :
    Agree owner (handled (blocksOf (done ++ [.block b]))) wtx := by
  obtain ⟨db, earlier, later, hdb, hnew, htxs, hwtx⟩ := hindexes.place
  have hagree : Agree owner (handled (blocksOf done)) db :=
    agree_run (hids.of_before (before_all hevents)) (howned.of_before ⟨_, hevents.symm⟩) hdb
  exact transactions_inv hids hevents hdb hnew (hagree.header hids hevents)
    (fun tx op wtx wtx' hindexes hwtx => (hwtx.indexed hids howned hevents hindexes).1) htxs hwtx

end

/-! ## One key for an id -/

/-- The binding, and the rows and payloads of the bound key's messages, are as before. -/
structure Unmoved (blocks : List RpcBlock) (g pub : Bytes) (rows rows' : Rows) : Prop where
  binding : get rows'.groupSenderBinding g = some pub
  messages : ∀ key : GroupMessageKeyByBlindedGroupId, ∀ m, MessageOf blocks key.txId m →
    m.pub = pub →
      get rows'.groupMessageByBlindedGroupId key = get rows.groupMessageByBlindedGroupId key ∧
        get rows'.txIdToGroupMessage key.txId = get rows.txIdToGroupMessage key.txId

/-- Bindings last; rows with a sender and pushes are of the bound key; and a message of another key
moves nothing, when it is seen and when its sender is told. -/
structure OneKey (env : Env) (events : List Event) (db : Database) : Prop where
  binding : ∀ done rest before, events = done ++ rest → run env done .empty = .ok before →
    ∀ g pub, get before.rows.groupSenderBinding g = some pub →
      get db.rows.groupSenderBinding g = some pub
  rows : ∀ key a, get db.rows.groupMessageByBlindedGroupId key = some a → a ≠ default →
    ∃ pub payload, get db.rows.groupSenderBinding key.blindedGroupId = some pub ∧
      a = AddressPayload.fromXonlyPubkey pub ∧
        get db.rows.txIdToGroupMessage key.txId = some payload ∧ senderPubOf payload = some pub
  pushes : ∀ push ∈ db.pushes, push.kind = .groupMessage → ∃ g pub payload,
    push.blindedGroupId = some g ∧ get db.rows.groupSenderBinding g = some pub ∧
      push.sender = AddressPayload.fromXonlyPubkey pub ∧
        get db.rows.txIdToGroupMessage push.txId = some payload ∧
          push.payload = some (fromUtf8Lossy payload) ∧ senderPubOf payload = some pub
  sighted : ∀ done b rest tx op wtx wtx', events = done ++ .block b :: rest →
    Indexes env done b tx op wtx wtx' → ∀ m, MessageOf (handled (blocksOf events)) tx.txId m →
      ∀ pub, get wtx.rows.groupSenderBinding m.blindedGroupId = some pub → m.pub ≠ pub →
        Unmoved (handled (blocksOf events)) m.blindedGroupId pub wtx.rows wtx'.rows
  answered : ∀ done address txId daa rest before after,
    events = done ++ .resolved address txId daa :: rest → run env done .empty = .ok before →
      handleSenderAddress env address txId daa before = .ok after →
        ∀ m, MessageOf (handled (blocksOf events)) txId m →
          ∀ pub, get before.rows.groupSenderBinding m.blindedGroupId = some pub → m.pub ≠ pub →
            Unmoved (handled (blocksOf events)) m.blindedGroupId pub before.rows after.rows

/-- Another key is another transaction. -/
theorem Apart.unmoved {blocks : List RpcBlock} (hids : Identified blocks) {txId : TxId}
    {rows rows' : Rows} (h : Apart txId rows rows') (hbinds : Binds rows rows') {m : Message}
    (hm : MessageOf blocks txId m) {pub : Bytes}
    (hpub : get rows.groupSenderBinding m.blindedGroupId = some pub) (hother : m.pub ≠ pub) :
    Unmoved blocks m.blindedGroupId pub rows rows' where
  binding := hbinds _ _ hpub
  messages key m' hm' hsame := h key fun htxId => hother (by
    rw [hm.unique hids (htxId ▸ hm'), hsame])

def sampleHex (length : ℕ) (digit : UInt8) : Bytes :=
  (List.replicate length [0x30, digit]).flatten

/-- A group message of a key, under the one id. -/
def sampleMessage (id owner : UInt8) : RpcTransaction where
  txId := sampleId id
  inputs := [⟨sampleId 1, 0⟩]
  outputs := [⟨1, sampleScript owner⟩]
  payload := ascii "ciph_msg:1:gcomm:" ++ List.intercalate [colon]
    [sampleHex 32 0x31, ascii "0", sampleHex 32 0x32, sampleHex 32 (0x30 + owner), sampleHex 24 0x33,
      sampleHex 1 0x34, sampleHex 64 0x35]

def copied : List Event :=
  [.block (sampleBlock 1 (sampleMessage 3 7)), .resolved (sampleScript 7) (sampleId 3) 1,
    .block (sampleBlock 2 (sampleMessage 4 9)), .resolved (sampleScript 9) (sampleId 4) 1]

end KaChatIndexer.ChatGroups

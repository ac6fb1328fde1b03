import KaChatIndexer.ChatBlocks

/-!
# Acceptance records and senders

The receiver is chosen from the sender, and the sender is known only once the parent's block is
committed. A transaction that is sighted both before and after that keeps one record, unless its
change comes first. The sender that is taken from the parent is always the owner of the coin.
-/
namespace KaChatIndexer.ChatAcceptance
open ByteStrings ChatPayload ChatRows ChatBlocks Fallible

variable {env : Env}

/-! ## Records of one id -/

/-- A second record under one id is what the assertion stops at. -/
def Doubled (db : Database) (e : Fault) : Prop :=
  e = .twoKeys → ∃ txId, 2 ≤ (recordsOf db.acceptance txId).length

theorem length_recordsOf (p : Acceptance) (txId : TxId) :
    (recordsOf p txId).length = (keys p).countP (·.txId = txId) := by
  unfold recordsOf keys
  rw [← List.countP_eq_length_filter, List.countP_map]
  rfl

theorem onlyRecord_ends (p : Acceptance) (txId : TxId) :
    Ends (fun e => e = .twoKeys → 2 ≤ (recordsOf p txId).length)
      (fun record => recordsOf p txId = record.toList) (onlyRecord p txId) := by
  unfold onlyRecord
  cases hrecords : recordsOf p txId with
  | nil => simp [Ends]
  | cons record rest =>
    cases rest with
    | nil => simp [Ends]
    | cons _ _ => simp [Ends]

theorem mem_recordsOf {p : Acceptance} {txId : TxId} {record : AcceptanceKey × AcceptanceValue} :
    record ∈ recordsOf p txId ↔ record ∈ p ∧ record.1.txId = txId := by
  simp [recordsOf]

/-- The key found is one of the id; none is found where there is none. -/
theorem keyByTxId_ends (p : Acceptance) (txId : TxId) :
    Ends (fun e => e = .twoKeys → 2 ≤ (recordsOf p txId).length)
      (fun key => (∀ k ∈ key, k ∈ keys p ∧ k.txId = txId) ∧
        (key = none → ∀ k ∈ keys p, k.txId ≠ txId)) (keyByTxId p txId) := by
  refine (onlyRecord_ends p txId).map fun record hrecord => ⟨?_, ?_⟩
  · intro k hk
    obtain ⟨found, hfound, rfl⟩ := Option.map_eq_some_iff.mp hk
    have hmem : found ∈ recordsOf p txId := by simp [hrecord, hfound]
    exact ⟨List.mem_map_of_mem (mem_recordsOf.mp hmem).1, (mem_recordsOf.mp hmem).2⟩
  · intro hnone k hk hid
    obtain ⟨found, hfound, rfl⟩ := List.mem_map.mp hk
    have hmem : found ∈ recordsOf p txId := mem_recordsOf.mpr ⟨hfound, hid⟩
    simp [hrecord, Option.map_eq_none_iff.mp hnone] at hmem

/-! ## What is no block keeps the keys -/

/-- The keys of the records, the headers and the owners are those of before. -/
structure Kept (db db' : Database) : Prop where
  headers : db'.headers = db.headers
  owners : db'.output0Owner = db.output0Owner
  permuted : (keys db.acceptance).Nodup → (keys db'.acceptance).Perm (keys db.acceptance)

theorem Kept.refl (db : Database) : Kept db db := ⟨rfl, rfl, fun _ => .refl _⟩

theorem Kept.trans {db db' db'' : Database} (h : Kept db db') (h' : Kept db' db'') :
    Kept db db'' where
  headers := h'.headers.trans h.headers
  owners := h'.owners.trans h.owners
  permuted hnodup :=
    (h'.permuted ((h.permuted hnodup).nodup_iff.mpr hnodup)).trans (h.permuted hnodup)

theorem Kept.doubled {db db' : Database} (hnodup : (keys db.acceptance).Nodup) (h : Kept db db')
    {txId : TxId} {e : Fault}
    (he : e = .twoKeys → 2 ≤ (recordsOf db'.acceptance txId).length) : Doubled db e := by
  intro htwo
  refine ⟨txId, ?_⟩
  rw [length_recordsOf, ← (h.permuted hnodup).countP_eq, ← length_recordsOf]
  exact he htwo

theorem updateRecord_keys {p : Acceptance} (h : (keys p).Nodup) (key : AcceptanceKey)
    (f : AcceptanceValue → AcceptanceValue) : (keys (updateRecord p key f)).Perm (keys p) := by
  unfold updateRecord
  cases hget : get p key with
  | none => exact .refl _
  | some old =>
    have hmem : key ∈ keys p := get_isSome.mp (by simp [hget])
    refine (List.perm_ext_iff_of_nodup (nodup_keys_put h key _) h).mpr fun k => ?_
    rw [mem_keys_put]
    constructor
    · rintro (rfl | hk)
      · exact hmem
      · exact hk
    · exact Or.inr

theorem removeAccepted_ends {db : Database} (hnodup : (keys db.acceptance).Nodup) (hash : Hash)
    (daa : ℕ) (txId : TxId) : Ends (Doubled db) (Kept db) (removeAccepted hash daa txId db) := by
  refine ((keyByTxId_ends db.acceptance txId).imp (fun e => (Kept.refl db).doubled hnodup)
    fun _ h => h).bind fun key _ => ?_
  cases key with
  | none => exact nofun
  | some key => exact ⟨rfl, rfl, fun h => updateRecord_keys h key _⟩

theorem addAccepted_ends {db : Database} (hnodup : (keys db.acceptance).Nodup) (hash : Hash)
    (daa : ℕ) (txId : TxId) : Ends (Doubled db) (Kept db) (addAccepted hash daa txId db) := by
  refine ((keyByTxId_ends db.acceptance txId).imp (fun e => (Kept.refl db).doubled hnodup)
    fun _ h => h).map fun key _ => ?_
  cases key with
  | none => exact Kept.refl db
  | some key => exact ⟨rfl, rfl, fun h => updateRecord_keys h key _⟩

theorem Kept.then {db db' : Database} (hnodup : (keys db.acceptance).Nodup) (h : Kept db db')
    {x : Except Fault Database}
    (hx : (keys db'.acceptance).Nodup → Ends (Doubled db') (Kept db') x) :
    Ends (Doubled db) (Kept db) x := by
  refine (hx ((h.permuted hnodup).nodup_iff.mpr hnodup)).imp (fun e he htwo => ?_) fun _ => h.trans
  obtain ⟨txId, htwice⟩ := he htwo
  exact h.doubled hnodup (fun _ => htwice) htwo

theorem daaOf_ends (db : Database) (hash : Hash) :
    Ends (Doubled db) (fun _ => True) (daaOf db hash) := by
  unfold daaOf
  split
  · exact nofun
  · trivial

theorem handleVccRemoval_ends {db : Database} (hnodup : (keys db.acceptance).Nodup) (hash : Hash) :
    Ends (Doubled db) (Kept db) (handleVccRemoval hash db) := by
  unfold handleVccRemoval
  cases get db.acceptingBlockToTxIds hash with
  | none => exact Kept.refl db
  | some txIds =>
    refine (daaOf_ends db hash).bind fun daa _ => ?_
    refine ends_fold (Kept db) (fun txId _ db' h => ?_) ⟨rfl, rfl, fun _ => .refl _⟩
    exact h.then hnodup fun hnodup' => removeAccepted_ends hnodup' hash daa txId

theorem handleVccAddition_ends {db : Database} (hnodup : (keys db.acceptance).Nodup)
    (block : Hash × List TxId) : Ends (Doubled db) (Kept db) (handleVccAddition block db) := by
  refine (daaOf_ends db block.1).bind fun daa _ => ?_
  refine (ends_fold (Kept db) (fun txId _ db' h => ?_) (Kept.refl db)).map
    fun db' h => ⟨h.headers, h.owners, h.permuted⟩
  exact h.then hnodup fun hnodup' => addAccepted_ends hnodup' block.1 daa txId

theorem handleVcc_ends {db : Database} (hnodup : (keys db.acceptance).Nodup) (change : ChainChange) :
    Ends (Doubled db) (Kept db) (handleVcc change db) := by
  have hremoved : Ends (Doubled db) (Kept db) (foldSteps handleVccRemoval change.removed db) :=
    ends_fold _ (fun hash _ db' h => h.then hnodup fun hnodup' =>
      handleVccRemoval_ends hnodup' hash) (Kept.refl db)
  have hadded : ∀ db', Kept db db' →
      Ends (Doubled db) (Kept db) (foldSteps handleVccAddition change.accepted db') := fun db' h' =>
    ends_fold _ (fun block _ db' h => h.then hnodup fun hnodup' =>
      handleVccAddition_ends hnodup' block) h'
  refine hremoved.bind fun db' h' => (hadded db' h').bind fun db'' h'' => ?_
  cases change.added.getLast? with
  | none => exact nofun
  | some last =>
    refine ((daaOf_ends db'' last).imp (fun e he htwo => ?_) fun _ h => h).map fun _ _ => h''
    obtain ⟨txId, htwice⟩ := he htwo
    exact h''.doubled hnodup (fun _ => htwice) htwo

theorem handleSenderAddress_ends {db : Database} (hnodup : (keys db.acceptance).Nodup)
    (address : ScriptPublicKey) (txId : TxId) (daa : ℕ) :
    Ends (Doubled db) (Kept db) (handleSenderAddress env address txId daa db) := by
  unfold handleSenderAddress
  split
  · exact nofun
  · refine ((keyByTxId_ends db.acceptance txId).imp (fun e => (Kept.refl db).doubled hnodup)
      fun _ h => h).bind fun key _ => ?_
    cases key with
    | none => exact nofun
    | some key =>
      dsimp only
      split
      · exact nofun
      · exact ⟨rfl, rfl, fun h => updateRecord_keys h key _⟩

/-- A change of the chain, a sender from the node and a read. -/
theorem other_ends {db : Database} (hnodup : (keys db.acceptance).Nodup) (event : Event)
    (h : ∀ b, event ≠ .block b) : Ends (Doubled db) (Kept db) (handle env event db) := by
  cases event with
  | block b => exact absurd rfl (h b)
  | change c => exact handleVcc_ends hnodup c
  | resolved address txId daa => exact handleSenderAddress_ends hnodup address txId daa
  | read txId =>
    have hread : Ends (Doubled db) (fun _ => True) (acceptanceByTxId db.acceptance txId) :=
      ((onlyRecord_ends db.acceptance txId).imp (fun e => (Kept.refl db).doubled hnodup)
        fun _ h => h).map fun _ _ => trivial
    exact hread.map fun _ _ => Kept.refl db

/-! ## Sightings -/

def isSealed (tx : RpcTransaction) : Bool := (parseSealedOperation tx.payload).isSome

def sealedOf (b : RpcBlock) : List RpcTransaction := b.transactions.filter isSealed

def blocksOf (events : List Event) : List RpcBlock :=
  events.filterMap fun
    | .block b => some b
    | _ => none

/-- The blocks that are not passed over. -/
def handled (blocks : List RpcBlock) : List RpcBlock :=
  blocks.foldl (fun before b =>
    if before.any (·.header.hash = b.header.hash) then before else before ++ [b]) []

/-- A sealed transaction of a block, with the blocks before. -/
abbrev Seen := List RpcBlock × RpcTransaction

def sightings (before : List RpcBlock) : List RpcBlock → List Seen
  | [] => []
  | b :: bs => (sealedOf b).map (fun tx => (before, tx)) ++ sightings (before ++ [b]) bs

/-- Whoever has one id is one transaction. -/
def Identified (blocks : List RpcBlock) : Prop :=
  ∀ tx ∈ blocks.flatMap sealedOf, ∀ tx' ∈ blocks.flatMap sealedOf, tx.txId = tx'.txId → tx = tx'

instance (blocks : List RpcBlock) : Decidable (Identified blocks) :=
  inferInstanceAs (Decidable (∀ _ ∈ _, _))

/-- The indexed transaction whose output 0 the first input spends. -/
def parentIn (before : List RpcBlock) (tx : RpcTransaction) : Option RpcTransaction :=
  tx.inputs.head?.bind fun outpoint =>
    if outpoint.index ≠ 0 then none
    else (before.flatMap sealedOf).find? (·.txId = outpoint.txId)

/-- The first standard output pays the owner of the parent's output 0, and another one somebody
else. -/
def ChangeFirst (env : Env) (parent tx : RpcTransaction) : Prop :=
  ∃ owner ∈ output0 env parent,
    (standardOutputs env tx.outputs).head?.map (·.2) = some owner ∧
      ∃ output ∈ standardOutputs env tx.outputs, output.2 ≠ owner

instance (parent tx : RpcTransaction) : Decidable (ChangeFirst env parent tx) :=
  inferInstanceAs (Decidable (∃ _, _))

/-- No transaction whose change comes first is sighted both before and after its parent. -/
def Steady (env : Env) (blocks : List RpcBlock) : Prop :=
  ∀ s ∈ sightings [] blocks, ∀ t ∈ sightings [] blocks, s.2.txId = t.2.txId →
    parentIn s.1 s.2 = none → ∀ parent ∈ parentIn t.1 t.2, ¬ ChangeFirst env parent t.2

theorem sightings_append (before bs : List RpcBlock) (b : RpcBlock) :
    sightings before (bs ++ [b]) =
      sightings before bs ++ (sealedOf b).map fun tx => (before ++ bs, tx) := by
  induction bs generalizing before with
  | nil => simp [sightings]
  | cons c bs ih => simp [sightings, ih]

theorem sightings_before {before bs : List RpcBlock} {s : Seen} (hs : s ∈ sightings before bs) :
    s.1 <+: before ++ bs := by
  induction bs generalizing before with
  | nil => exact absurd hs List.not_mem_nil
  | cons b bs ih =>
    rcases List.mem_append.mp hs with hs | hs
    · obtain ⟨tx, -, rfl⟩ := List.mem_map.mp hs
      exact List.prefix_append _ _
    · simpa using ih hs

theorem mem_sealed {bs : List RpcBlock} {tx : RpcTransaction} (before : List RpcBlock) :
    tx ∈ bs.flatMap sealedOf ↔ ∃ s ∈ sightings before bs, s.2 = tx := by
  induction bs generalizing before with
  | nil => simp [sightings]
  | cons b bs ih =>
    rw [List.flatMap_cons, List.mem_append, ih (before ++ [b]), sightings]
    constructor
    · rintro (hmem | ⟨s, hs, rfl⟩)
      · exact ⟨_, List.mem_append_left _ (List.mem_map.mpr ⟨tx, hmem, rfl⟩), rfl⟩
      · exact ⟨s, List.mem_append_right _ hs, rfl⟩
    · rintro ⟨s, hs, rfl⟩
      rcases List.mem_append.mp hs with hs | hs
      · obtain ⟨tx, htx, rfl⟩ := List.mem_map.mp hs
        exact .inl htx
      · exact .inr ⟨s, hs, rfl⟩

theorem handled_append (bs : List RpcBlock) (b : RpcBlock) :
    handled (bs ++ [b]) =
      if (handled bs).any (·.header.hash = b.header.hash) then handled bs else handled bs ++ [b] := by
  unfold handled
  rw [List.foldl_append]
  rfl

theorem handled_before (bs cs : List RpcBlock) : handled bs <+: handled (bs ++ cs) := by
  induction cs using List.reverseRecOn with
  | nil => simp
  | append_singleton cs b ih =>
    rw [← List.append_assoc, handled_append]
    split
    · exact ih
    · exact ih.trans (List.prefix_append _ _)

theorem Identified.of_before {bs cs : List RpcBlock} (h : Identified cs) (hbs : bs <+: cs) :
    Identified bs := by
  have hmem : ∀ tx ∈ bs.flatMap sealedOf, tx ∈ cs.flatMap sealedOf := by
    intro tx htx
    obtain ⟨b, hb, hin⟩ := List.mem_flatMap.mp htx
    exact List.mem_flatMap.mpr ⟨b, hbs.subset hb, hin⟩
  exact fun tx htx tx' htx' => h tx (hmem tx htx) tx' (hmem tx' htx')

/-! ## Senders and receivers -/

/-- The sender that a transaction has where its parent is indexed. -/
def senderIn (env : Env) (before : List RpcBlock) (tx : RpcTransaction) : Option AddressPayload :=
  (parentIn before tx).bind (output0 env)

def receiverIn (env : Env) (s : Seen) : AddressPayload :=
  (resolvePrimaryReceiver env s.2.outputs (senderIn env s.1 s.2)).2

def keyIn (env : Env) (s : Seen) : AcceptanceKey := ⟨s.2.txId, receiverIn env s⟩

/-- The sender changes the receiver exactly where the first standard output is the sender's and
another one is not. -/
theorem receiver_iff (outputs : List RpcTransactionOutput) (owner : AddressPayload) :
    (resolvePrimaryReceiver env outputs (some owner)).2 =
        (resolvePrimaryReceiver env outputs none).2 ↔
      ¬ ((standardOutputs env outputs).head?.map (·.2) = some owner ∧
        ∃ output ∈ standardOutputs env outputs, output.2 ≠ owner) := by
  unfold resolvePrimaryReceiver
  cases standardOutputs env outputs with
  | nil => simp
  | cons first rest =>
    simp only [Option.bind_some, Option.bind_none, Option.getD_none, List.head?_cons,
      Option.map_some, Option.some.injEq]
    by_cases hfirst : first.2 = owner
    · cases hfind : (first :: rest).find? fun output => decide (output.2 ≠ owner) with
      | none =>
        have hall := List.find?_eq_none.mp hfind
        refine iff_of_true rfl fun ⟨_, output, houtput, hne⟩ => hall output houtput ?_
        simpa using hne
      | some output =>
        have hne : output.2 ≠ owner := by simpa using List.find?_some hfind
        refine iff_of_false (fun heq => hne (heq.trans hfirst)) fun hnot => ?_
        exact hnot ⟨hfirst, output, List.mem_of_find?_eq_some hfind, hne⟩
    · rw [List.find?_cons_of_pos (by simpa using hfirst)]
      exact iff_of_true rfl fun h => hfirst h.1

theorem parentIn_spec {blocks before : List RpcBlock} (hids : Identified blocks)
    (hbefore : before <+: blocks) {tx : RpcTransaction} {outpoint : Outpoint}
    (hinput : tx.inputs.head? = some outpoint) (hzero : outpoint.index = 0)
    {parent : RpcTransaction} (hparent : parent ∈ before.flatMap sealedOf)
    (hid : parent.txId = outpoint.txId) : parentIn before tx = some parent := by
  rw [parentIn, hinput, Option.bind_some, if_neg (not_not.mpr hzero)]
  cases hfind : (before.flatMap sealedOf).find? (·.txId = outpoint.txId) with
  | none => exact absurd (by simpa using hid) (List.find?_eq_none.mp hfind parent hparent)
  | some found =>
    have hfound : found.txId = outpoint.txId := by simpa using List.find?_some hfind
    exact congrArg some ((hids.of_before hbefore) found (List.mem_of_find?_eq_some hfind) parent
      hparent (hfound.trans hid.symm))

theorem parentIn_none {before : List RpcBlock} {tx : RpcTransaction} {outpoint : Outpoint}
    (hinput : tx.inputs.head? = some outpoint)
    (h : ∀ parent ∈ before.flatMap sealedOf, parent.txId ≠ outpoint.txId) :
    parentIn before tx = none := by
  rw [parentIn, hinput, Option.bind_some]
  split
  · rfl
  · exact List.find?_eq_none.mpr fun parent hparent => by simpa using h parent hparent

theorem parentIn_mem {before : List RpcBlock} {tx parent : RpcTransaction}
    (h : parentIn before tx = some parent) :
    ∃ outpoint, tx.inputs.head? = some outpoint ∧ outpoint.index = 0 ∧
      parent ∈ before.flatMap sealedOf ∧ parent.txId = outpoint.txId := by
  obtain ⟨outpoint, hinput, h⟩ := Option.bind_eq_some_iff.mp h
  split at h
  · cases h
  · next hzero =>
    have hid : parent.txId = outpoint.txId := by simpa using List.find?_some h
    exact ⟨outpoint, hinput, not_not.mp hzero, List.mem_of_find?_eq_some h, hid⟩

section
variable {blocks : List RpcBlock} {s t : Seen}

theorem Identified.same (hids : Identified blocks) (hs : s ∈ sightings [] blocks)
    (ht : t ∈ sightings [] blocks) (hid : s.2.txId = t.2.txId) : s.2 = t.2 :=
  hids _ ((mem_sealed []).mpr ⟨s, hs, rfl⟩) _ ((mem_sealed []).mpr ⟨t, ht, rfl⟩) hid

/-- The sighting without the parent gives the receiver of the other one unless the change comes
first. -/
theorem receiver_eq_iff (htx : s.2 = t.2) (hnone : parentIn s.1 s.2 = none) :
    receiverIn env s = receiverIn env t ↔
      ∀ parent ∈ parentIn t.1 t.2, ¬ ChangeFirst env parent t.2 := by
  unfold receiverIn senderIn
  rw [hnone, htx]
  cases hparent : parentIn t.1 t.2 with
  | none => simp
  | some parent =>
    cases howner : output0 env parent with
    | none => simp [ChangeFirst, howner]
    | some owner =>
      have hchange : ChangeFirst env parent t.2 ↔
          ((standardOutputs env t.2.outputs).head?.map (·.2) = some owner ∧
            ∃ output ∈ standardOutputs env t.2.outputs, output.2 ≠ owner) := by
        simp [ChangeFirst, howner]
      simp only [Option.bind_none, Option.bind_some, howner, Option.mem_some_iff, forall_eq',
        hchange]
      rw [eq_comm]
      exact receiver_iff t.2.outputs owner

theorem parent_eq (hids : Identified blocks) (hs : s ∈ sightings [] blocks)
    (ht : t ∈ sightings [] blocks) (htx : s.2 = t.2) (hknown : (parentIn s.1 s.2).isSome)
    (hknown' : (parentIn t.1 t.2).isSome) : parentIn s.1 s.2 = parentIn t.1 t.2 := by
  obtain ⟨parent, hparent⟩ := Option.isSome_iff_exists.mp hknown
  obtain ⟨parent', hparent'⟩ := Option.isSome_iff_exists.mp hknown'
  obtain ⟨outpoint, hinput, hzero, hmem, hid⟩ := parentIn_mem hparent
  obtain ⟨outpoint', hinput', -, hmem', hid'⟩ := parentIn_mem hparent'
  rw [htx, hinput'] at hinput
  obtain rfl := Option.some.inj hinput
  have hall {u : Seen} (hu : u ∈ sightings [] blocks) {tx : RpcTransaction}
      (htx : tx ∈ u.1.flatMap sealedOf) : tx ∈ blocks.flatMap sealedOf := by
    obtain ⟨b, hb, hin⟩ := List.mem_flatMap.mp htx
    exact List.mem_flatMap.mpr ⟨b, (sightings_before hu).subset hb, hin⟩
  rw [hparent, hparent', hids _ (hall hs hmem) _ (hall ht hmem') (hid.trans hid'.symm)]

/-- Each transaction has one receiver exactly in steady blocks. -/
theorem receivers_agree_iff (hids : Identified blocks) :
    (∀ s ∈ sightings [] blocks, ∀ t ∈ sightings [] blocks, s.2.txId = t.2.txId →
      receiverIn env s = receiverIn env t) ↔ Steady env blocks := by
  constructor
  · intro h s hs t ht hid hnone
    exact (receiver_eq_iff (hids.same hs ht hid) hnone).mp (h s hs t ht hid)
  · intro h s hs t ht hid
    have htx := hids.same hs ht hid
    cases hparent : parentIn s.1 s.2 with
    | none => exact (receiver_eq_iff htx hparent).mpr (h s hs t ht hid hparent)
    | some parent =>
      cases hparent' : parentIn t.1 t.2 with
      | none => exact ((receiver_eq_iff htx.symm hparent').mpr (h t ht s hs hid.symm hparent')).symm
      | some parent' =>
        have heq := parent_eq hids hs ht htx (by simp [hparent]) (by simp [hparent'])
        rw [receiverIn, receiverIn, senderIn, senderIn, heq, htx]

end

/-! ## What the records show -/

/-- The keys are those of the sightings, and where a transaction has no record of its owner, the
receiver is its owner. -/
structure Shown (env : Env) (seen : List Seen) (db : Database) : Prop where
  nodup : (keys db.acceptance).Nodup
  mem : ∀ k, k ∈ keys db.acceptance ↔ ∃ s ∈ seen, keyIn env s = k
  recorded : ∀ txId owner, get db.output0Owner txId = some owner →
    ∃ s ∈ seen, s.2.txId = txId ∧ owner = (output0 env s.2).getD default
  unrecorded : ∀ s ∈ seen, get db.output0Owner s.2.txId = none →
    output0 env s.2 = some (receiverIn env s)

theorem shown_empty : Shown env [] .empty where
  nodup := List.nodup_nil
  mem k := by simp [Database.empty, keys]
  recorded txId owner h := by simp [Database.empty, ChatRows.get] at h
  unrecorded s hs := absurd hs List.not_mem_nil

theorem Shown.kept {seen : List Seen} {db db' : Database} (h : Shown env seen db)
    (hkept : Kept db db') : Shown env seen db' where
  nodup := (hkept.permuted h.nodup).nodup_iff.mpr h.nodup
  mem k := (hkept.permuted h.nodup).mem_iff.trans (h.mem k)
  recorded := hkept.owners ▸ h.recorded
  unrecorded := hkept.owners ▸ h.unrecorded

/-- The sender that is found is the owner of the coin that is spent. -/
theorem resolveSender_ends {blocks before : List RpcBlock} (hids : Identified blocks)
    (hbefore : before <+: blocks) {seen : List Seen} (hseen : ∀ s ∈ seen, s.2 ∈ blocks.flatMap sealedOf)
    (hsub : ∀ s ∈ sightings [] before, s ∈ seen) {committed wtx : Database}
    (hcommitted : Shown env (sightings [] before) committed) (hwtx : Shown env seen wtx)
    {tx : RpcTransaction} {outpoint : Outpoint} (hinput : tx.inputs.head? = some outpoint) :
    Ends (Doubled committed) (· = senderIn env before tx) (resolveSender committed wtx outpoint) := by
  unfold resolveSender
  by_cases hzero : outpoint.index = 0
  · rw [if_neg (not_not.mpr hzero)]
    refine ((keyByTxId_ends committed.acceptance outpoint.txId).imp
      (fun e he htwo => ⟨outpoint.txId, he htwo⟩) fun _ h => h).map fun key ⟨hfound, hnone⟩ => ?_
    cases key with
    | none =>
      refine (congrArg (Option.bind · (output0 env)) (parentIn_none hinput fun parent hparent => ?_)).symm
      obtain ⟨s, hs, rfl⟩ := (mem_sealed []).mp hparent
      exact hnone rfl _ ((hcommitted.mem _).mpr ⟨s, hs, rfl⟩)
    | some key =>
      obtain ⟨hkey, hid⟩ := hfound key rfl
      obtain ⟨s, hs, rfl⟩ := (hcommitted.mem key).mp hkey
      have hparent := parentIn_spec hids hbefore hinput hzero ((mem_sealed []).mpr ⟨s, hs, rfl⟩) hid
      rw [Option.bind_some, senderIn, hparent, Option.bind_some]
      have hid : s.2.txId = outpoint.txId := hid
      cases hget : get wtx.output0Owner outpoint.txId with
      | none => exact (hwtx.unrecorded s (hsub s hs) (hid ▸ hget)).symm
      | some owner =>
        obtain ⟨t, ht, htid, rfl⟩ := hwtx.recorded _ _ hget
        have hsame : t.2 = s.2 := hids _ (hseen t ht) _ (hseen s (hsub s hs)) (htid.trans hid.symm)
        rw [hsame]
        cases hout : output0 env s.2 with
        | none => rfl
        | some owner =>
          have hne : owner ≠ default := by
            obtain ⟨output, -, htry⟩ := Option.bind_eq_some_iff.mp hout
            exact tryFrom_ne_default htry
          simp [output0Owner, hne]
  · rw [if_pos hzero]
    refine (?_ : none = senderIn env before tx)
    rw [senderIn, parentIn, hinput, Option.bind_some, if_pos hzero, Option.bind_none]

theorem insertAcceptance_put (p : Acceptance) (key : AcceptanceKey) (entries : List InsertionEntry) :
    ∃ value, insertAcceptance p key entries = put p key value := by
  unfold insertAcceptance
  split
  · exact ⟨_, rfl⟩
  · exact ⟨_, rfl⟩

/-- A transaction that is indexed is one more sighting. -/
theorem indexTransaction_ends {seen : List Seen} {before : List RpcBlock} {wtx : Database}
    (h : Shown env seen wtx) (header : RpcHeader) (tx : RpcTransaction) (op : SealedOperation) :
    Ends (· = .malformed) (fun db => Shown env (seen ++ [(before, tx)]) db ∧ db.headers = wtx.headers)
      (indexTransaction env header tx op (senderIn env before tx) wtx) := by
  unfold indexTransaction
  dsimp only
  split
  · rfl
  · next w _ =>
    obtain ⟨value, hput⟩ := insertAcceptance_put wtx.acceptance (keyIn env (before, tx)) w.entries
    refine ⟨⟨?_, fun k => ?_, fun txId owner hget => ?_, fun s hs hnone => ?_⟩, rfl⟩
    · exact (congrArg (fun p => (keys p).Nodup) hput).mpr (nodup_keys_put h.nodup _ _)
    · refine (Iff.of_eq (congrArg (fun p => k ∈ keys p) hput)).trans ?_
      rw [mem_keys_put, h.mem]
      simp [or_and_right, exists_or, eq_comm, or_comm]
    · dsimp only at hget
      split at hget
      · rw [get_put] at hget
        split at hget
        · next hid => exact ⟨(before, tx), by simp, hid.symm, (Option.some.inj hget).symm⟩
        · obtain ⟨s, hs, hrest⟩ := h.recorded txId owner hget
          exact ⟨s, List.mem_append_left _ hs, hrest⟩
      · obtain ⟨s, hs, hrest⟩ := h.recorded txId owner hget
        exact ⟨s, List.mem_append_left _ hs, hrest⟩
    · dsimp only at hnone
      split at hnone
      · next hdiffers =>
        rw [get_put] at hnone
        split at hnone
        · cases hnone
        · next hid =>
          rcases List.mem_append.mp hs with hs | hs
          · exact h.unrecorded s hs hnone
          · obtain rfl := List.mem_singleton.mp hs
            exact absurd rfl hid
      · next hequal =>
        rcases List.mem_append.mp hs with hs | hs
        · exact h.unrecorded s hs hnone
        · obtain rfl := List.mem_singleton.mp hs
          exact not_not.mp hequal

/-! ## Runs -/

/-- The blocks handled so far are those with headers. -/
structure Reached (env : Env) (before : List RpcBlock) (db : Database) : Prop where
  shown : Shown env (sightings [] before) db
  headers : ∀ hash, (get db.headers hash).isSome ↔ ∃ b ∈ before, b.header.hash = hash

theorem reached_empty : Reached env [] .empty := ⟨shown_empty, by simp [Database.empty, ChatRows.get]⟩

/-- Inside a block: the sightings are those of the transactions so far. -/
theorem transactions_ends {blocks before : List RpcBlock} {b : RpcBlock} (hids : Identified blocks)
    (hb : before ++ [b] <+: blocks) {db wtx : Database} (h : Reached env before db)
    (hwtx : Shown env (sightings [] before) wtx) {txs rest : List RpcTransaction}
    (htxs : b.transactions = txs ++ rest) :
    Ends (Doubled db) (fun db' => Shown env (sightings [] before ++
        (txs.filter isSealed).map fun tx => (before, tx)) db' ∧ db'.headers = wtx.headers)
      (foldSteps (handleTransaction env db b.header) txs wtx) := by
  refine ends_steps (fun done db' => Shown env (sightings [] before ++
    (done.filter isSealed).map fun tx => (before, tx)) db' ∧ db'.headers = wtx.headers) ?_
    (by simpa using hwtx)
  rintro done tx rest' rfl wtx' ⟨hshown, hheaders⟩
  have hin : ∀ tx ∈ sealedOf b, tx ∈ blocks.flatMap sealedOf := fun tx htx =>
    List.mem_flatMap.mpr ⟨b, hb.subset (by simp), htx⟩
  unfold handleTransaction
  cases hparse : parseSealedOperation tx.payload with
  | none =>
    have hsealed : isSealed tx = false := by simp [isSealed, hparse]
    simpa [Ends, List.filter_append, hsealed] using ⟨hshown, hheaders⟩
  | some op =>
    have hsealed : isSealed tx = true := by simp [isSealed, hparse]
    cases hinputs : tx.inputs with
    | nil => exact nofun
    | cons outpoint inputs =>
      have hinput : tx.inputs.head? = some outpoint := by simp [hinputs]
      refine (resolveSender_ends hids (.trans (List.prefix_append _ _) hb) ?_ ?_ h.shown hshown
        hinput).bind ?_
      · intro s hs
        rcases List.mem_append.mp hs with hs | hs
        · obtain ⟨b', hb', hmem⟩ := List.mem_flatMap.mp ((mem_sealed []).mpr ⟨s, hs, rfl⟩)
          exact List.mem_flatMap.mpr ⟨b', hb.subset (List.mem_append_left _ hb'), hmem⟩
        · obtain ⟨tx', htx', rfl⟩ := List.mem_map.mp hs
          refine hin tx' (List.mem_filter.mpr ⟨?_, (List.mem_filter.mp htx').2⟩)
          simp [htxs, (List.mem_filter.mp htx').1]
      · exact fun s hs => List.mem_append_left _ hs
      · rintro _ rfl
        refine (indexTransaction_ends hshown b.header tx op).imp ?_ ?_
        · rintro e rfl
          exact nofun
        · rintro db' ⟨hshown', hheaders'⟩
          refine ⟨?_, hheaders'.trans hheaders⟩
          simpa [List.filter_append, hsealed] using hshown'

theorem handleBlock_ends {blocks before : List RpcBlock} {b : RpcBlock} (hids : Identified blocks)
    (hb : handled (before ++ [b]) <+: blocks) {db : Database}
    (h : Reached env (handled before) db) :
    Ends (Doubled db) (Reached env (handled (before ++ [b]))) (handleBlock env b db) := by
  unfold handleBlock
  rw [handled_append] at hb ⊢
  have hseen : (handled before).any (·.header.hash = b.header.hash) =
      (get db.headers b.header.hash).isSome := by
    rw [Bool.eq_iff_iff, h.headers]
    simp
  rw [hseen] at hb ⊢
  have hheaders : ∀ hash, (get (put db.headers b.header.hash
      (b.header.blueWork, b.header.daaScore)) hash).isSome ↔
      hash = b.header.hash ∨ (get db.headers hash).isSome := by
    intro hash
    rw [get_isSome, mem_keys_put, get_isSome]
  by_cases hknown : (get db.headers b.header.hash).isSome
  · rw [if_pos hknown]
    dsimp only
    rw [if_pos hknown]
    refine ⟨⟨h.shown.nodup, h.shown.mem, h.shown.recorded, h.shown.unrecorded⟩, fun hash => ?_⟩
    rw [← h.headers, hheaders]
    exact ⟨fun hor => hor.elim (fun heq => heq ▸ hknown) id, .inr⟩
  · rw [if_neg hknown] at hb ⊢
    dsimp only
    rw [if_neg hknown]
    have hstart : Shown env (sightings [] (handled before)) { db with
        headers := put db.headers b.header.hash (b.header.blueWork, b.header.daaScore) } :=
      ⟨h.shown.nodup, h.shown.mem, h.shown.recorded, h.shown.unrecorded⟩
    refine (transactions_ends hids hb h hstart (List.append_nil b.transactions).symm).imp
      (fun _ he => he) ?_
    rintro db' ⟨hshown, hheaders'⟩
    refine ⟨?_, fun hash => ?_⟩
    · rw [sightings_append]
      exact hshown
    · rw [hheaders', hheaders, h.headers]
      simp [or_and_right, exists_or, or_comm, eq_comm]

theorem blocksOf_append (events events' : List Event) :
    blocksOf (events ++ events') = blocksOf events ++ blocksOf events' :=
  List.filterMap_append

/-- What the records show holds in every state that is reached. -/
theorem reached_run {events : List Event} (hids : Identified (handled (blocksOf events)))
    {db : Database} (hrun : run env events .empty = .ok db) :
    Reached env (handled (blocksOf events)) db := by
  have hends : Ends (fun _ => True) (Reached env (handled (blocksOf events)))
      (run env events .empty) := by
    refine ends_steps (fun done => Reached env (handled (blocksOf done))) ?_ reached_empty
    rintro done event rest rfl db' h
    have hprefix : handled (blocksOf (done ++ [event])) <+:
        handled (blocksOf (done ++ event :: rest)) := by
      rw [show done ++ event :: rest = (done ++ [event]) ++ rest by simp,
        blocksOf_append (done ++ [event]) rest]
      exact handled_before _ _
    rw [blocksOf_append] at hprefix ⊢
    cases event with
    | block b => exact (handleBlock_ends hids hprefix h).imp (fun _ _ => trivial) fun _ h => h
    | change c =>
      rw [show blocksOf [.change c] = [] from rfl, List.append_nil]
      exact (other_ends h.shown.nodup (.change c) nofun).imp (fun _ _ => trivial)
        fun db'' hkept => (⟨h.shown.kept hkept, hkept.headers ▸ h.headers⟩ : Reached env _ db'')
    | resolved address txId daa =>
      rw [show blocksOf [.resolved address txId daa] = [] from rfl, List.append_nil]
      exact (other_ends h.shown.nodup (.resolved address txId daa) nofun).imp
        (fun _ _ => trivial)
        fun db'' hkept => (⟨h.shown.kept hkept, hkept.headers ▸ h.headers⟩ : Reached env _ db'')
    | read txId =>
      rw [show blocksOf [.read txId] = [] from rfl, List.append_nil]
      exact (other_ends h.shown.nodup (.read txId) nofun).imp (fun _ _ => trivial)
        fun db'' hkept => (⟨h.shown.kept hkept, hkept.headers ▸ h.headers⟩ : Reached env _ db'')
  exact hends.of_ok hrun

/-! ## One record for each transaction -/

def OneRecord (db : Database) : Prop := ∀ txId, (recordsOf db.acceptance txId).length ≤ 1

theorem oneRecord_iff_nodup (db : Database) :
    OneRecord db ↔ ((keys db.acceptance).map (·.txId)).Nodup := by
  rw [List.nodup_iff_count_le_one]
  refine forall_congr' fun txId => ?_
  rw [length_recordsOf, List.count, List.countP_map]
  exact Iff.of_eq (congrArg (· ≤ 1) (List.countP_congr fun k _ => by simp))

theorem Reached.oneRecord_iff {before : List RpcBlock} {db : Database}
    (h : Reached env before db) (hids : Identified before) :
    OneRecord db ↔ Steady env before := by
  rw [oneRecord_iff_nodup, ← receivers_agree_iff hids]
  constructor
  · intro hnodup s hs t ht hid
    exact congrArg AcceptanceKey.receiver (List.inj_on_of_nodup_map hnodup
      ((h.shown.mem _).mpr ⟨s, hs, rfl⟩) ((h.shown.mem _).mpr ⟨t, ht, rfl⟩) hid)
  · intro hagree
    refine h.shown.nodup.map_on fun k hk k' hk' hid => ?_
    obtain ⟨s, hs, rfl⟩ := (h.shown.mem k).mp hk
    obtain ⟨t, ht, rfl⟩ := (h.shown.mem k').mp hk'
    rw [keyIn, keyIn, hagree s hs t ht hid]
    exact congrArg (AcceptanceKey.mk · _) hid

theorem handleBlock_faults (b : RpcBlock) (db : Database) :
    Ends (Doubled db) (fun _ => True) (handleBlock env b db) := by
  unfold handleBlock
  dsimp only
  split
  · trivial
  · refine ends_fold (fun _ => True) (fun tx _ wtx _ => ?_) trivial
    unfold handleTransaction
    split
    · trivial
    · split
      · exact nofun
      · next outpoint _ _ =>
        have hsender : Ends (Doubled db) (fun _ => True) (resolveSender db wtx outpoint) := by
          unfold resolveSender
          split
          · trivial
          · exact ((keyByTxId_ends db.acceptance outpoint.txId).imp
              (fun e he htwo => ⟨outpoint.txId, he htwo⟩) fun _ h => h).map fun _ _ => trivial
        refine hsender.bind fun sender _ => ?_
        unfold indexTransaction
        dsimp only
        split
        · exact nofun
        · trivial

/-- There is one record for each transaction, and no event stops at the assertion, exactly where no
transaction whose change comes first is sighted both before and after its parent. -/
theorem one_record_iff {events : List Event} (hids : Identified (handled (blocksOf events)))
    {db : Database} (hrun : run env events .empty = .ok db) :
    (OneRecord db ∧ ∀ event, handle env event db ≠ .error .twoKeys) ↔
      Steady env (handled (blocksOf events)) := by
  have hreached := reached_run hids hrun
  rw [← hreached.oneRecord_iff hids]
  refine and_iff_left_of_imp fun hone event htwo => ?_
  have hfaults : Ends (Doubled db) (fun _ => True) (handle env event db) := by
    cases event with
    | block b => exact handleBlock_faults b db
    | change c => exact (handleVcc_ends hreached.shown.nodup c).imp (fun _ h => h) fun _ _ => trivial
    | resolved address txId daa =>
      exact (handleSenderAddress_ends hreached.shown.nodup address txId daa).imp (fun _ h => h)
        fun _ _ => trivial
    | read txId =>
      exact (other_ends hreached.shown.nodup (.read txId) nofun).imp (fun _ h => h)
        fun _ _ => trivial
  obtain ⟨txId, htwice⟩ := hfaults.of_error htwo rfl
  have hlength := hone txId
  omega

theorem read_twice {db : Database} {txId : TxId} (h : 2 ≤ (recordsOf db.acceptance txId).length) :
    handle env (.read txId) db = .error .twoKeys := by
  match hrecords : recordsOf db.acceptance txId with
  | [] => simp [hrecords] at h
  | [_] => simp [hrecords] at h
  | _ :: _ :: _ => simp [handle, acceptanceByTxId, onlyRecord, hrecords, Except.map]

/-! ### A change output that comes first -/

def sampleEnv : Env where
  classOf key := if key.script = [] then .nonStandard else .pubKey
  classVersion _ := 0
  personalAddresses := []
  personalInboxTags := []
  personalGroupIds := []

def sampleId (n : UInt8) : Bytes := List.replicate 32 n

def sampleScript (owner : UInt8) : ScriptPublicKey := ⟨0, 32 :: List.replicate 32 owner⟩

/-- A handshake that spends output 0 of another transaction. -/
def sampleTx (id spends : UInt8) (owners : List UInt8) : RpcTransaction where
  txId := sampleId id
  inputs := [⟨sampleId spends, 0⟩]
  outputs := owners.map fun owner => ⟨1, sampleScript owner⟩
  payload := ascii "kchat:x"

def sampleBlock (hash : UInt8) (tx : RpcTransaction) : RpcBlock :=
  ⟨⟨sampleId hash, 1, 1, 1⟩, [tx]⟩

def sampleParent : RpcTransaction := sampleTx 2 1 [7]

def sampleChild : RpcTransaction := sampleTx 3 2 [7, 8]

def childFirst : List Event :=
  [.block (sampleBlock 1 sampleChild), .block (sampleBlock 2 sampleParent),
    .block (sampleBlock 3 sampleChild)]

def parentFirst : List Event :=
  [.block (sampleBlock 2 sampleParent), .block (sampleBlock 1 sampleChild),
    .block (sampleBlock 3 sampleChild)]

theorem childFirst_doubled : ∃ db, run sampleEnv childFirst .empty = .ok db ∧ ¬ OneRecord db ∧
    handle sampleEnv (.read (sampleId 3)) db = .error .twoKeys := by
  have htwo : okAnd (run sampleEnv childFirst .empty)
      (fun db => 2 ≤ (recordsOf db.acceptance (sampleId 3)).length) = true := by decide +kernel
  obtain ⟨db, hrun, htwice⟩ := exists_of_okAnd htwo
  have htwice : 2 ≤ (recordsOf db.acceptance (sampleId 3)).length := of_decide_eq_true htwice
  exact ⟨db, hrun, fun hone => absurd (hone (sampleId 3)) (by omega), read_twice htwice⟩

theorem sample_identified : Identified (handled (blocksOf parentFirst)) := by decide +kernel

theorem parentFirst_one : ∃ db, run sampleEnv parentFirst .empty = .ok db ∧
    ((OneRecord db ∧ ∀ event, handle sampleEnv event db ≠ .error .twoKeys) ↔
      Steady sampleEnv (handled (blocksOf parentFirst))) := by
  have hruns : okAnd (run sampleEnv parentFirst .empty) (fun _ => true) = true := by
    decide +kernel
  obtain ⟨db, hrun, -⟩ := exists_of_okAnd hruns
  exact ⟨db, hrun, one_record_iff sample_identified hrun⟩

/-! ## Nobody sends as somebody else -/

/-- Within a block, a sender that is resolved is that of the indexed parent. -/
theorem resolveSender_in {blocks before : List RpcBlock} {b : RpcBlock} (hids : Identified blocks)
    (hb : before ++ [b] <+: blocks) {db : Database} (h : Reached env before db)
    {earlier later : List RpcTransaction} {tx : RpcTransaction}
    (htxs : b.transactions = earlier ++ tx :: later) {wtx : Database}
    (hwtx : foldSteps (handleTransaction env db b.header) earlier { db with
      headers := put db.headers b.header.hash (b.header.blueWork, b.header.daaScore) } = .ok wtx)
    {outpoint : Outpoint} (hinput : tx.inputs.head? = some outpoint)
    {sender : Option AddressPayload} (hsender : resolveSender db wtx outpoint = .ok sender) :
    sender = senderIn env before tx := by
  have hstart : Shown env (sightings [] before) { db with
      headers := put db.headers b.header.hash (b.header.blueWork, b.header.daaScore) } :=
    ⟨h.shown.nodup, h.shown.mem, h.shown.recorded, h.shown.unrecorded⟩
  have hshown := ((transactions_ends hids hb h hstart htxs).of_ok hwtx).1
  refine (resolveSender_ends hids (.trans (List.prefix_append _ _) hb) ?_ ?_ h.shown hshown
    hinput).of_ok hsender
  · intro s hs
    rcases List.mem_append.mp hs with hs | hs
    · obtain ⟨b', hb', hmem⟩ := List.mem_flatMap.mp ((mem_sealed []).mpr ⟨s, hs, rfl⟩)
      exact List.mem_flatMap.mpr ⟨b', hb.subset (List.mem_append_left _ hb'), hmem⟩
    · obtain ⟨tx', htx', rfl⟩ := List.mem_map.mp hs
      obtain ⟨hmem, hsealed⟩ := List.mem_filter.mp htx'
      refine List.mem_flatMap.mpr ⟨b, hb.subset (by simp), List.mem_filter.mpr ⟨?_, hsealed⟩⟩
      simp [htxs, hmem]
  · exact fun s hs => List.mem_append_left _ hs

/-- Where a transaction of a further block gets a sender from an indexed parent, it is the address of
the output that is spent; an output without one leaves the sender to the node. -/
theorem sender_is_owner {events : List Event} {b : RpcBlock}
    (hids : Identified (handled (blocksOf events ++ [b]))) {db : Database}
    (hrun : run env events .empty = .ok db) (hnew : get db.headers b.header.hash = none)
    {earlier rest : List RpcTransaction} {tx : RpcTransaction}
    (htxs : b.transactions = earlier ++ tx :: rest) {wtx : Database}
    (hwtx : foldSteps (handleTransaction env db b.header) earlier { db with
      headers := put db.headers b.header.hash (b.header.blueWork, b.header.daaScore) } = .ok wtx)
    {outpoint : Outpoint} (hinput : tx.inputs.head? = some outpoint)
    {sender : Option AddressPayload} (hsender : resolveSender db wtx outpoint = .ok sender) :
    (∀ s, sender = some s → outpoint.index = 0 ∧
      ∃ parent ∈ (handled (blocksOf events)).flatMap sealedOf, parent.txId = outpoint.txId ∧
        output0 env parent = some s) ∧
    ∀ parent ∈ (handled (blocksOf events)).flatMap sealedOf, outpoint.index = 0 →
      parent.txId = outpoint.txId → sender = output0 env parent := by
  have hreached := reached_run (hids.of_before (handled_before _ _)) hrun
  have hhandled : handled (blocksOf events ++ [b]) = handled (blocksOf events) ++ [b] := by
    rw [handled_append, if_neg]
    intro hany
    obtain ⟨b', hb', hhash⟩ := List.any_eq_true.mp hany
    have hknown := (hreached.headers b.header.hash).mpr ⟨b', hb', by simpa using hhash⟩
    simp [hnew] at hknown
  rw [hhandled] at hids
  have hsenderIn : sender = senderIn env (handled (blocksOf events)) tx :=
    resolveSender_in hids (List.prefix_refl _) hreached htxs hwtx hinput hsender
  refine ⟨fun s hs => ?_, fun parent hmem hzero hid => ?_⟩
  · obtain ⟨parent, hparent, howner⟩ := Option.bind_eq_some_iff.mp (hsenderIn.symm.trans hs)
    obtain ⟨outpoint', hinput', hzero, hmem, hid⟩ := parentIn_mem hparent
    obtain rfl := Option.some.inj (hinput.symm.trans hinput')
    exact ⟨hzero, parent, hmem, hid, howner⟩
  · have hparent := parentIn_spec hids (List.prefix_append _ _) hinput hzero hmem hid
    rw [hsenderIn, senderIn, hparent, Option.bind_some]

/-- The state in which the child's block is begun. -/
def sampleStart (db : Database) : Database :=
  { db with headers := put db.headers (sampleId 1) (1, 1) }

theorem sampleChild_sender : ∃ db sender,
    run sampleEnv [.block (sampleBlock 2 sampleParent)] .empty = .ok db ∧
    resolveSender db (sampleStart db) ⟨sampleId 2, 0⟩ = .ok sender ∧
    (∀ s, sender = some s → (⟨sampleId 2, 0⟩ : Outpoint).index = 0 ∧
      ∃ parent ∈ (handled (blocksOf [.block (sampleBlock 2 sampleParent)])).flatMap sealedOf,
        parent.txId = sampleId 2 ∧ output0 sampleEnv parent = some s) ∧
    ∀ parent ∈ (handled (blocksOf [.block (sampleBlock 2 sampleParent)])).flatMap sealedOf,
      (⟨sampleId 2, 0⟩ : Outpoint).index = 0 → parent.txId = sampleId 2 →
        sender = output0 sampleEnv parent := by
  have hruns : okAnd (run sampleEnv [.block (sampleBlock 2 sampleParent)] .empty) (fun db =>
      (ChatRows.get db.headers (sampleId 1)).isNone &&
        okAnd (resolveSender db (sampleStart db) ⟨sampleId 2, 0⟩) fun _ => true) = true := by
    decide +kernel
  obtain ⟨db, hrun, htest⟩ := exists_of_okAnd hruns
  obtain ⟨hnew, hresolves⟩ := Bool.and_eq_true_iff.mp htest
  obtain ⟨sender, hsender, -⟩ := exists_of_okAnd hresolves
  exact ⟨db, sender, hrun, hsender, sender_is_owner (b := sampleBlock 1 sampleChild)
    (by decide +kernel) hrun (Option.isNone_iff_eq_none.mp hnew) (List.nil_append _).symm rfl rfl
    hsender⟩

end KaChatIndexer.ChatAcceptance

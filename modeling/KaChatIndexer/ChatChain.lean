import KaChatIndexer.ChatRuns

/-!
# What the records say of acceptance

The chain that the changes tell, and the accepting block that a record names. A removal leaves the
removed block in the record, so the record is right only where an added block accepts the
transaction again.
-/
namespace KaChatIndexer.ChatChain
open ByteStrings ChatPayload ChatRows ChatBlocks ChatAcceptance ChatSlots ChatRuns Fallible

variable {env : Env}

/-! ## The chain that is told -/

def extend (chain : List Hash) (c : ChainChange) : List Hash :=
  chain.filter (· ∉ c.removed) ++ c.added

/-- The selected chain after the events. -/
def chainOf (events : List Event) : List Hash :=
  events.foldl (fun chain event =>
    match event with
    | .change c => extend chain c
    | _ => chain) []

theorem chainOf_change (done : List Event) (c : ChainChange) :
    chainOf (done ++ [.change c]) = extend (chainOf done) c := by
  rw [chainOf, List.foldl_append]
  rfl

theorem mem_extend {chain : List Hash} {c : ChainChange} {h : Hash} :
    h ∈ extend chain c ↔ h ∈ chain ∧ h ∉ c.removed ∨ h ∈ c.added := by
  simp [extend]

/-- What each chain block accepts is told with it, no block has the zero hash, and a hash is of one
header. -/
structure Told (acceptedBy : Hash → List TxId) (events : List Event) : Prop where
  accepted : ∀ c, .change c ∈ events → c.accepted = c.added.map fun h => (h, acceptedBy h)
  named : ∀ c, .change c ∈ events → zeroHash ∉ c.added
  headers : ∀ b ∈ blocksOf events, ∀ b' ∈ blocksOf events, b.header.hash = b'.header.hash →
    b.header = b'.header

/-! ## One change -/

theorem keyByTxId_only {p : Acceptance} {txId : TxId} {key : AcceptanceKey}
    (h : keyByTxId p txId = .ok (some key)) : ∀ k ∈ keys p, k.txId = txId → k = key := by
  intro k hk hid
  obtain ⟨record, hrecord, hkey⟩ := map_ok h
  obtain ⟨found, hfound, rfl⟩ := List.mem_map.mp hk
  have hmem : found ∈ recordsOf p txId := mem_recordsOf.mpr ⟨hfound, hid⟩
  unfold onlyRecord at hrecord
  split at hrecord
  · next hnil =>
    rw [hnil] at hmem
    exact absurd hmem List.not_mem_nil
  · next only honly =>
    obtain rfl := Except.ok.inj hrecord
    rw [honly, List.mem_singleton] at hmem
    rw [hmem]
    exact Option.some.inj hkey
  · cases hrecord

theorem keyByTxId_none {p : Acceptance} {txId : TxId} (h : keyByTxId p txId = .ok none) :
    ∀ k ∈ keys p, k.txId ≠ txId := by
  have hends := keyByTxId_ends p txId
  rw [h] at hends
  exact hends.2 rfl

theorem keyByTxId_some {p : Acceptance} {txId : TxId} {key : AcceptanceKey}
    (h : keyByTxId p txId = .ok (some key)) : key ∈ keys p ∧ key.txId = txId := by
  have hends := keyByTxId_ends p txId
  rw [h] at hends
  exact hends.1 key rfl

section
variable {hash : Hash} {daa : ℕ} {txId : TxId} {txIds : List TxId} {db db' : Database}

/-- The record of a transaction is made to name the block. -/
theorem acceptorOf_named {key : AcceptanceKey} (hkey : keyByTxId db.acceptance txId = .ok (some key))
    (k : AcceptanceKey) : acceptorOf (updateAcceptance db.acceptance key hash daa) k =
      if k.txId = txId then (acceptorOf db.acceptance k).map fun _ => (hash, daa)
      else acceptorOf db.acceptance k := by
  obtain ⟨hmem, hid⟩ := keyByTxId_some hkey
  rw [acceptorOf_updateAcceptance]
  by_cases hk : k = key
  · rw [if_pos hk, if_pos (hk ▸ hid)]
  · rw [if_neg hk]
    split
    · next htx =>
      cases hacceptor : acceptorOf db.acceptance k with
      | none => rfl
      | some acceptor =>
        have hin : k ∈ keys db.acceptance := acceptorOf_isSome.mp (by simp [hacceptor])
        exact absurd (keyByTxId_only hkey k hin htx) hk
    · rfl

theorem removeAccepted_acceptor (h : removeAccepted hash daa txId db = .ok db')
    (k : AcceptanceKey) : acceptorOf db'.acceptance k =
      if k.txId = txId then (acceptorOf db.acceptance k).map fun _ => (hash, daa)
      else acceptorOf db.acceptance k := by
  obtain ⟨key, hkey, h⟩ := bind_ok h
  cases key with
  | none => cases h
  | some key =>
    obtain rfl := Except.ok.inj h
    exact acceptorOf_named hkey k

theorem addAccepted_acceptor (h : addAccepted hash daa txId db = .ok db') (k : AcceptanceKey) :
    acceptorOf db'.acceptance k =
      if k.txId = txId then (acceptorOf db.acceptance k).map fun _ => (hash, daa)
      else acceptorOf db.acceptance k := by
  obtain ⟨key, hkey, rfl⟩ := map_ok h
  cases key with
  | none =>
    dsimp only
    split_ifs with htx
    · cases hacceptor : acceptorOf db.acceptance k with
      | none => rfl
      | some acceptor =>
        have hin : k ∈ keys db.acceptance := acceptorOf_isSome.mp (by simp [hacceptor])
        exact absurd htx (keyByTxId_none hkey k hin)
    · rfl
  | some key => exact acceptorOf_named hkey k

/-- A list of transactions whose records are made to name the block. -/
theorem steps_acceptor {f : TxId → Database → Except Fault Database}
    (hf : ∀ txId db db', f txId db = .ok db' → ∀ k : AcceptanceKey, acceptorOf db'.acceptance k =
      if k.txId = txId then (acceptorOf db.acceptance k).map fun _ => (hash, daa)
      else acceptorOf db.acceptance k)
    (h : foldSteps f txIds db = .ok db') (k : AcceptanceKey) : acceptorOf db'.acceptance k =
      if k.txId ∈ txIds then (acceptorOf db.acceptance k).map fun _ => (hash, daa)
      else acceptorOf db.acceptance k := by
  refine steps_inv (fun done s => acceptorOf s.acceptance k =
    if k.txId ∈ done then (acceptorOf db.acceptance k).map fun _ => (hash, daa)
    else acceptorOf db.acceptance k) (fun done txId rest _ s s' _ hs hstep => ?_) (by simp) h
  rw [hf txId s s' hstep k, hs]
  by_cases htx : k.txId = txId
  · by_cases hdone : txId ∈ done <;> simp [htx, hdone, Function.comp_def]
  · simp [htx]

end

/-- A block that leaves is not tracked any more. -/
theorem handleVccRemoval_tracked {hash : Hash} {db db' : Database}
    (h : handleVccRemoval hash db = .ok db') {other : Hash} {txIds : List TxId}
    (hget : get db'.acceptingBlockToTxIds other = some txIds) :
    other ≠ hash ∧ get db.acceptingBlockToTxIds other = some txIds := by
  unfold handleVccRemoval at h
  split at h
  · next hnone =>
    obtain rfl := Except.ok.inj h
    refine ⟨fun heq => ?_, hget⟩
    rw [heq, hnone] at hget
    cases hget
  · next txIds' hsome =>
    obtain ⟨daa, -, hfold⟩ := bind_ok h
    have hsame : db'.acceptingBlockToTxIds = erase db.acceptingBlockToTxIds hash := by
      refine steps_inv (fun _ s => s.acceptingBlockToTxIds = erase db.acceptingBlockToTxIds hash)
        (fun _ txId _ _ s s' _ hs hstep => ?_) rfl hfold
      obtain ⟨key, -, hstep⟩ := bind_ok hstep
      cases key with
      | none => cases hstep
      | some key =>
        obtain rfl := Except.ok.inj hstep
        exact hs
    rw [hsame, get_erase] at hget
    split at hget
    · cases hget
    · next hne => exact ⟨hne, hget⟩

theorem removals_tracked {removed : List Hash} {db db' : Database}
    (h : foldSteps handleVccRemoval removed db = .ok db') : ∀ hash txIds,
      get db'.acceptingBlockToTxIds hash = some txIds →
        hash ∉ removed ∧ get db.acceptingBlockToTxIds hash = some txIds := by
  refine steps_inv (fun done s => ∀ hash txIds, get s.acceptingBlockToTxIds hash = some txIds →
    hash ∉ done ∧ get db.acceptingBlockToTxIds hash = some txIds) ?_
    (fun _ _ hget => ⟨List.not_mem_nil, hget⟩) h
  intro done hash rest _ s s' _ hs hstep other txIds hget
  obtain ⟨hne, hget⟩ := handleVccRemoval_tracked hstep hget
  obtain ⟨hnot, hget⟩ := hs other txIds hget
  exact ⟨by simp [hnot, hne], hget⟩

/-- Only transactions of a block that leaves may have got another acceptor. -/
theorem removals_acceptor {removed : List Hash} {db db' : Database}
    (h : foldSteps handleVccRemoval removed db = .ok db') (k : AcceptanceKey) :
    acceptorOf db'.acceptance k = acceptorOf db.acceptance k ∨
      ∃ hash ∈ removed, ∃ txIds, get db.acceptingBlockToTxIds hash = some txIds ∧ k.txId ∈ txIds := by
  refine steps_inv (fun done s => acceptorOf s.acceptance k = acceptorOf db.acceptance k ∨
    ∃ hash ∈ done, ∃ txIds, get db.acceptingBlockToTxIds hash = some txIds ∧ k.txId ∈ txIds) ?_
    (.inl rfl) h
  intro done hash rest _ s s' hdone hs hstep
  have hbefore (h : acceptorOf s'.acceptance k = acceptorOf s.acceptance k) :
      acceptorOf s'.acceptance k = acceptorOf db.acceptance k ∨ ∃ other ∈ done ++ [hash], ∃ txIds,
        get db.acceptingBlockToTxIds other = some txIds ∧ k.txId ∈ txIds := by
    rcases hs with hs | ⟨other, hother, hrest⟩
    · exact .inl (h.trans hs)
    · exact .inr ⟨other, List.mem_append_left _ hother, hrest⟩
  unfold handleVccRemoval at hstep
  split at hstep
  · obtain rfl := Except.ok.inj hstep
    exact hbefore rfl
  · next txIds hsome =>
    obtain ⟨daa, -, hfold⟩ := bind_ok hstep
    have hnamed := steps_acceptor (fun _ _ _ => removeAccepted_acceptor) hfold k
    by_cases hmem : k.txId ∈ txIds
    · exact .inr ⟨hash, by simp, txIds, (removals_tracked hdone hash txIds hsome).2, hmem⟩
    · rw [if_neg hmem] at hnamed
      exact hbefore hnamed

theorem handleVccAddition_tracked {block : Hash × List TxId} {db db' : Database}
    (h : handleVccAddition block db = .ok db') {hash : Hash} {txIds : List TxId}
    (hget : get db'.acceptingBlockToTxIds hash = some txIds) :
    hash = block.1 ∧ txIds ⊆ block.2 ∨ get db.acceptingBlockToTxIds hash = some txIds := by
  obtain ⟨daa, -, h⟩ := bind_ok h
  obtain ⟨middle, hfold, rfl⟩ := map_ok h
  have hsame : middle.acceptingBlockToTxIds = db.acceptingBlockToTxIds := by
    refine steps_inv (fun _ s => s.acceptingBlockToTxIds = db.acceptingBlockToTxIds)
      (fun _ txId _ _ s s' _ hs hstep => ?_) rfl hfold
    obtain ⟨key, -, rfl⟩ := map_ok hstep
    cases key <;> exact hs
  dsimp only at hget
  rw [get_put, hsame] at hget
  split at hget
  · next heq =>
    obtain rfl := Option.some.inj hget
    exact .inl ⟨heq, List.filter_subset_self _⟩
  · exact .inr hget

theorem additions_tracked {blocks : List (Hash × List TxId)} {db db' : Database}
    (h : foldSteps handleVccAddition blocks db = .ok db') : ∀ hash txIds,
      get db'.acceptingBlockToTxIds hash = some txIds →
        (∃ block ∈ blocks, block.1 = hash ∧ txIds ⊆ block.2) ∨
          get db.acceptingBlockToTxIds hash = some txIds := by
  refine steps_inv (fun done s => ∀ hash txIds, get s.acceptingBlockToTxIds hash = some txIds →
    (∃ block ∈ done, block.1 = hash ∧ txIds ⊆ block.2) ∨
      get db.acceptingBlockToTxIds hash = some txIds) ?_ (fun _ _ hget => .inr hget) h
  intro done block rest _ s s' _ hs hstep hash txIds hget
  rcases handleVccAddition_tracked hstep hget with ⟨heq, hsub⟩ | hget
  · exact .inl ⟨block, by simp, heq.symm, hsub⟩
  · refine (hs hash txIds hget).imp_left ?_
    rintro ⟨other, hother, hrest⟩
    exact ⟨other, List.mem_append_left _ hother, hrest⟩

/-- Whoever accepts a transaction last is its acceptor. -/
theorem additions_acceptor {blocks : List (Hash × List TxId)} {db db' : Database}
    (h : foldSteps handleVccAddition blocks db = .ok db') : ∀ k hash daa,
      acceptorOf db'.acceptance k = some (hash, daa) →
        (∃ block ∈ blocks, block.1 = hash ∧ k.txId ∈ block.2 ∧ daaOf db hash = .ok daa) ∨
          acceptorOf db.acceptance k = some (hash, daa) ∧ ∀ block ∈ blocks, k.txId ∉ block.2 := by
  refine steps_inv (fun done s => ∀ k hash daa, acceptorOf s.acceptance k = some (hash, daa) →
    (∃ block ∈ done, block.1 = hash ∧ k.txId ∈ block.2 ∧ daaOf db hash = .ok daa) ∨
      acceptorOf db.acceptance k = some (hash, daa) ∧ ∀ block ∈ done, k.txId ∉ block.2) ?_
    (fun _ _ _ hget => .inr ⟨hget, fun _ hmem => absurd hmem List.not_mem_nil⟩) h
  intro done block rest _ s s' hdone hs hstep k hash acceptedAt hget
  have hheaders := (additions_untouched hdone).headers
  obtain ⟨daa, hdaa, hstep⟩ := bind_ok hstep
  obtain ⟨middle, hfold, rfl⟩ := map_ok hstep
  have hdaa : daaOf db block.1 = .ok daa := by
    rw [← hdaa]
    unfold daaOf
    rw [hheaders]
  dsimp only at hget
  rw [steps_acceptor (fun _ _ _ => addAccepted_acceptor) hfold k] at hget
  split at hget
  · next hmem =>
    obtain ⟨_, -, heq⟩ := Option.map_eq_some_iff.mp hget
    obtain ⟨rfl, rfl⟩ := Prod.ext_iff.mp heq
    exact .inl ⟨block, by simp, rfl, hmem, hdaa⟩
  · next hmem =>
    rcases hs k hash acceptedAt hget with ⟨other, hother, hrest⟩ | ⟨hbefore, hnone⟩
    · exact .inl ⟨other, List.mem_append_left _ hother, hrest⟩
    · refine .inr ⟨hbefore, fun other hother => ?_⟩
      rcases List.mem_append.mp hother with hother | hother
      · exact hnone other hother
      · rw [List.mem_singleton.mp hother]
        exact hmem

/-! ## Runs -/

/-- A block whose transactions are tracked is of the chain, and accepts them. -/
def Tracked (acceptedBy : Hash → List TxId) (chain : List Hash) (db : Database) : Prop :=
  ∀ hash txIds, get db.acceptingBlockToTxIds hash = some txIds →
    hash ∈ chain ∧ txIds ⊆ acceptedBy hash

/-- A record names the block of the chain that accepts its transaction, or none accepts it. -/
structure Truth (acceptedBy : Hash → List TxId) (chain : List Hash) (db : Database) : Prop where
  acceptor : ∀ key hash daa, acceptorOf db.acceptance key = some (hash, daa) →
    (hash = zeroHash ∧ daa = 0 ∧ ∀ h ∈ chain, key.txId ∉ acceptedBy h) ∨
      hash ∈ chain ∧ key.txId ∈ acceptedBy hash ∧ daaOf db hash = .ok daa
  tracked : Tracked acceptedBy chain db

/-- What an event must not do: remove a block from the chain without adding one that accepts its
indexed transactions again, and show a transaction for the first time that the chain accepts
already. -/
def Careful (acceptedBy : Hash → List TxId) (chain : List Hash) (db : Database) : Event → Prop
  | .change c => ∀ hash ∈ c.removed, hash ∈ chain → ∀ txId ∈ acceptedBy hash,
      recordsOf db.acceptance txId ≠ [] → ∃ added ∈ c.added, txId ∈ acceptedBy added
  | .block b => get db.headers b.header.hash = none → ∀ tx ∈ sealedOf b,
      recordsOf db.acceptance tx.txId = [] → ∀ hash ∈ chain, tx.txId ∉ acceptedBy hash
  | _ => True

/-- Every event of a run, with the state before it. -/
def EveryStep (env : Env) (events : List Event) (ok : List Event → Database → Event → Prop) : Prop :=
  ∀ done event rest db, events = done ++ event :: rest → run env done .empty = .ok db →
    ok done db event

section
variable {acceptedBy : Hash → List TxId} {chain : List Hash} {db db' : Database}

theorem recorded_iff {p : Acceptance} {txId : TxId} :
    recordsOf p txId ≠ [] ↔ ∃ key ∈ keys p, key.txId = txId := by
  constructor
  · intro h
    obtain ⟨record, hrecord⟩ := List.exists_mem_of_ne_nil _ h
    obtain ⟨hmem, hid⟩ := mem_recordsOf.mp hrecord
    exact ⟨record.1, List.mem_map_of_mem hmem, hid⟩
  · rintro ⟨key, hkey, hid⟩
    obtain ⟨record, hrecord, rfl⟩ := List.mem_map.mp hkey
    exact List.ne_nil_of_mem (mem_recordsOf.mpr ⟨hrecord, hid⟩)

theorem accepted_told {c : ChainChange}
    (haccepted : c.accepted = c.added.map fun h => (h, acceptedBy h)) :
    ∀ block ∈ c.accepted, block.1 ∈ c.added ∧ block.2 = acceptedBy block.1 := by
  intro block hblock
  rw [haccepted] at hblock
  obtain ⟨hash, hhash, rfl⟩ := List.mem_map.mp hblock
  exact ⟨hhash, rfl⟩

theorem daaOf_congr {hash : Hash} (h : db'.headers = db.headers) :
    daaOf db' hash = daaOf db hash := by
  unfold daaOf
  rw [h]

theorem Tracked.changed (h : Tracked acceptedBy chain db) {c : ChainChange}
    (haccepted : c.accepted = c.added.map fun h => (h, acceptedBy h))
    (hstep : handleVcc c db = .ok db') : Tracked acceptedBy (extend chain c) db' := by
  obtain ⟨middle, hremoved, hadded⟩ := handleVcc_ok hstep
  intro hash txIds hget
  rcases additions_tracked hadded hash txIds hget with ⟨block, hblock, rfl, hsub⟩ | hget
  · obtain ⟨hin, heq⟩ := accepted_told haccepted block hblock
    exact ⟨mem_extend.mpr (.inr hin), heq ▸ hsub⟩
  · obtain ⟨hnot, hget⟩ := removals_tracked hremoved hash txIds hget
    obtain ⟨hchain, hsub⟩ := h hash txIds hget
    exact ⟨mem_extend.mpr (.inl ⟨hchain, hnot⟩), hsub⟩

theorem Truth.changed (h : Truth acceptedBy chain db) {c : ChainChange}
    (haccepted : c.accepted = c.added.map fun h => (h, acceptedBy h))
    (hcareful : Careful acceptedBy chain db (.change c)) (hstep : handleVcc c db = .ok db') :
    Truth acceptedBy (extend chain c) db' := by
  have huntouched := handleVcc_untouched hstep
  refine ⟨fun key hash daa hget => ?_, h.tracked.changed haccepted hstep⟩
  obtain ⟨middle, hremoved, hadded⟩ := handleVcc_ok hstep
  rcases additions_acceptor hadded key hash daa hget with
    ⟨block, hblock, rfl, hmem, hdaaof⟩ | ⟨hmiddle, hnone⟩
  · obtain ⟨hin, heq⟩ := accepted_told haccepted block hblock
    refine .inr ⟨mem_extend.mpr (.inr hin), heq ▸ hmem, ?_⟩
    rwa [daaOf_congr (additions_untouched hadded).headers]
  · have hnone : ∀ hash ∈ c.added, key.txId ∉ acceptedBy hash := fun hash hhash =>
      hnone (hash, acceptedBy hash) (haccepted ▸ List.mem_map_of_mem hhash)
    have hrecorded : recordsOf db.acceptance key.txId ≠ [] := by
      refine recorded_iff.mpr ⟨key, ?_, rfl⟩
      rw [← huntouched.keys, ← acceptorOf_isSome, hget]
      rfl
    have hagain : ∀ hash ∈ c.removed, hash ∈ chain → key.txId ∉ acceptedBy hash := by
      intro hash hhash hchain hmem
      obtain ⟨added, hadded, hmem⟩ := hcareful hash hhash hchain key.txId hmem hrecorded
      exact hnone added hadded hmem
    have hsame : acceptorOf middle.acceptance key = acceptorOf db.acceptance key := by
      refine (removals_acceptor hremoved key).resolve_right ?_
      rintro ⟨hash, hhash, txIds, hget, hmem⟩
      obtain ⟨hchain, hsub⟩ := h.tracked hash txIds hget
      exact hagain hash hhash hchain (hsub hmem)
    rcases h.acceptor key hash daa (hsame ▸ hmiddle) with ⟨hzero, hdaa, hall⟩ | ⟨hchain, hmem, hdaaof⟩
    · refine .inl ⟨hzero, hdaa, fun other hother => ?_⟩
      rcases mem_extend.mp hother with ⟨hother, -⟩ | hother
      · exact hall other hother
      · exact hnone other hother
    · have hstays : hash ∉ c.removed := fun hgone => hagain hash hgone hchain hmem
      refine .inr ⟨mem_extend.mpr (.inl ⟨hchain, hstays⟩), hmem, ?_⟩
      rwa [daaOf_congr huntouched.headers]

/-- A header that is stored is that of a block. -/
def Headed (blocks : List RpcBlock) (db : Database) : Prop :=
  ∀ hash v, get db.headers hash = some v → ∃ b ∈ blocks, b.header.hash = hash ∧
    v = (b.header.blueWork, b.header.daaScore)

variable {events done rest : List Event} {b : RpcBlock} {tx : RpcTransaction} {op : SealedOperation}
  {wtx wtx' : Database}

theorem Headed.mono {bs cs : List RpcBlock} (h : Headed bs db) (hsub : bs ⊆ cs)
    (hheaders : db'.headers = db.headers) : Headed cs db' := by
  intro hash v hget
  rw [hheaders] at hget
  obtain ⟨b, hb, hrest⟩ := h hash v hget
  exact ⟨b, hsub hb, hrest⟩

theorem Headed.begun {blocks : List RpcBlock} (h : Headed blocks db) (b : RpcBlock) :
    Headed (blocks ++ [b]) (begun b db) := by
  intro hash v hget
  dsimp only [ChatRuns.begun] at hget
  rw [get_put] at hget
  split at hget
  · next heq => exact ⟨b, by simp, heq.symm, (Option.some.inj hget).symm⟩
  · obtain ⟨b', hb', hrest⟩ := h hash v hget
    exact ⟨b', List.mem_append_left _ hb', hrest⟩

theorem Truth.of_headers {chain : List Hash} (h : Truth acceptedBy chain db)
    (hacceptance : ∀ key, acceptorOf db'.acceptance key = acceptorOf db.acceptance key)
    (htracked : db'.acceptingBlockToTxIds = db.acceptingBlockToTxIds)
    (hdaa : ∀ hash daa, daaOf db hash = .ok daa → daaOf db' hash = .ok daa) :
    Truth acceptedBy chain db' where
  acceptor key hash daa hget :=
    (h.acceptor key hash daa (hacceptance key ▸ hget)).imp id fun ⟨hchain, hmem, hok⟩ =>
      ⟨hchain, hmem, hdaa hash daa hok⟩
  tracked hash txIds hget := h.tracked hash txIds (htracked ▸ hget)

theorem headed_run (hids : Identified (handled (blocksOf events)))
    (hrun : run env events .empty = .ok db) : Headed (blocksOf events) db := by
  have hmore : ∀ (done : List Event) (e : Event), blocksOf done ⊆ blocksOf (done ++ [e]) := by
    intro done e
    rw [blocksOf_append]
    exact List.subset_append_left _ _
  refine run_inv (P := fun done db => Headed (blocksOf done) db) hids ?_ ?_ ?_ ?_ ?_ ?_ hrun
  · intro hash v hget
    simp [Database.empty, ChatRows.get] at hget
  · intro done b rest db _ _ h
    rw [blocksOf_append]
    exact h.begun b
  · intro done b rest tx op wtx wtx' _ hindexes h
    obtain ⟨w, owners, -, -, heq⟩ := indexTransaction_ok hindexes.indexed
    exact h.mono (List.Subset.refl _) (by rw [heq])
  · intro done c rest db db' _ _ h hstep
    exact h.mono (hmore done _) (handleVcc_untouched hstep).headers
  · intro done address txId daa rest db db' _ _ h hstep
    obtain ⟨sender, key, rows, pushes, -, -, -, rfl⟩ := handleSenderAddress_ok hstep
    exact h.mono (hmore done _) rfl
  · intro done txId rest db _ h
    exact h.mono (hmore done _) rfl

/-- The header of a block that is handled again is the same. -/
theorem daaOf_begun (hids : Identified (handled (blocksOf events))) (htold : Told acceptedBy events)
    (hevents : events = done ++ .block b :: rest) (hdb : run env done .empty = .ok db)
    {hash : Hash} {daa : ℕ} (hok : daaOf db hash = .ok daa) :
    daaOf (begun b db) hash = .ok daa := by
  have hheaded := headed_run (hids.of_before (before_all hevents)) hdb
  unfold daaOf at hok ⊢
  dsimp only [begun]
  rw [get_put]
  by_cases heq : hash = b.header.hash
  · rw [if_pos heq]
    cases hget : get db.headers hash with
    | none => simp [hget] at hok
    | some v =>
      obtain ⟨b', hb', hhash, rfl⟩ := hheaded hash v hget
      have hsame : b'.header = b.header := by
        refine htold.headers b' ?_ b ?_ (hhash.trans heq)
        · rw [hevents, blocksOf_append]
          exact List.mem_append_left _ hb'
        · rw [hevents, blocksOf_append]
          exact List.mem_append_right _ (List.mem_cons_self ..)
      rw [hget] at hok
      rw [← hsame]
      exact hok
  · rw [if_neg heq]
    exact hok

/-- A transaction that has no record yet is in none of the committed records. -/
theorem unrecorded_of_new (hids : Identified (handled (blocksOf events)))
    (hsteady : Steady env (handled (blocksOf events))) (hevents : events = done ++ .block b :: rest)
    (h : Indexes env done b tx op wtx wtx')
    (hnew : keyIn env (handled (blocksOf done), tx) ∉ keys wtx.acceptance) :
    ∃ db, run env done .empty = .ok db ∧ get db.headers b.header.hash = none ∧
      recordsOf db.acceptance tx.txId = [] := by
  obtain ⟨db, hdb, hheader, hbegins⟩ := h.begins
  have hreached := reached_run (hids.of_before (before_all hevents)) hdb
  refine ⟨db, hdb, hheader, ?_⟩
  by_contra hrecorded
  obtain ⟨key, hkey, hid⟩ := recorded_iff.mp hrecorded
  obtain ⟨s, hs, rfl⟩ := (hreached.shown.mem key).mp hkey
  have hs := (sightings_before (before_all hevents)).subset hs
  have hagree := (receivers_agree_iff hids).mpr hsteady s hs _ (h.seen hids hevents) hid
  refine hnew (hbegins.keys _ ?_)
  rw [keyIn, ← hagree]
  rwa [keyIn, show s.2.txId = tx.txId from hid] at hkey

theorem Truth.indexed (hids : Identified (handled (blocksOf events)))
    (hsteady : Steady env (handled (blocksOf events))) (hevents : events = done ++ .block b :: rest)
    (hcareful : EveryStep env events fun done db => Careful acceptedBy (chainOf done) db)
    (hindexes : Indexes env done b tx op wtx wtx') (h : Truth acceptedBy (chainOf done) wtx) :
    Truth acceptedBy (chainOf done) wtx' := by
  obtain ⟨w, owners, -, -, heq⟩ := indexTransaction_ok hindexes.indexed
  have hkey : (⟨tx.txId, (sightingOf env b.header tx
      (senderIn env (handled (blocksOf done)) tx)).receiver⟩ : AcceptanceKey) =
        keyIn env (handled (blocksOf done), tx) := rfl
  refine ⟨fun key hash daa hget => ?_, fun hash txIds hget => ?_⟩
  · have hdaa : daaOf wtx' hash = daaOf wtx hash := by
      rw [heq]
      rfl
    rw [hdaa]
    rw [heq] at hget
    dsimp only at hget
    rw [acceptorOf_insertAcceptance, hkey] at hget
    split at hget
    · next hk =>
      cases hbefore : acceptorOf wtx.acceptance key with
      | some acceptor =>
        rw [hbefore, Option.getD_some] at hget
        exact h.acceptor key hash daa (hbefore.trans hget)
      | none =>
        rw [hbefore, Option.getD_none] at hget
        obtain ⟨rfl, rfl⟩ := Prod.ext_iff.mp (Option.some.inj hget)
        refine .inl ⟨rfl, rfl, ?_⟩
        obtain ⟨db, hdb, hheader, hnone⟩ := unrecorded_of_new hids hsteady hevents
          hindexes (fun hmem => by
            have hsome := acceptorOf_isSome.mpr hmem
            rw [← hk, hbefore] at hsome
            cases hsome)
        have hstep : Careful acceptedBy (chainOf done) db (.block b) :=
          hcareful done _ rest db hevents hdb
        rw [hk]
        exact hstep hheader tx hindexes.mem_sealed hnone
    · exact h.acceptor key hash daa hget
  · rw [heq] at hget
    exact h.tracked hash txIds hget

theorem chainOf_other (done : List Event) {e : Event} (he : ∀ c, e ≠ .change c) :
    chainOf (done ++ [e]) = chainOf done := by
  rw [chainOf, List.foldl_append]
  cases e with
  | change c => exact absurd rfl (he c)
  | _ => rfl

theorem truth_run (hids : Identified (handled (blocksOf events)))
    (hsteady : Steady env (handled (blocksOf events))) (htold : Told acceptedBy events)
    (hcareful : EveryStep env events fun done db => Careful acceptedBy (chainOf done) db)
    (hrun : run env events .empty = .ok db) : Truth acceptedBy (chainOf events) db := by
  refine run_inv (P := fun done db => Truth acceptedBy (chainOf done) db) hids ?_ ?_ ?_ ?_ ?_ ?_ hrun
  · exact ⟨fun _ _ _ h => by simp [acceptorOf, Database.empty, ChatRows.get] at h,
      fun _ _ h => by simp [Database.empty, ChatRows.get] at h⟩
  · intro done b rest db hevents hdb h
    rw [chainOf_other done (by simp)]
    exact h.of_headers (fun _ => rfl) rfl fun hash daa => daaOf_begun hids htold hevents hdb
  · intro done b rest tx op wtx wtx' hevents hindexes h
    rw [chainOf_other done (by simp)] at h ⊢
    exact h.indexed hids hsteady hevents hcareful hindexes
  · intro done c rest db db' hevents hdb h hstep
    rw [chainOf_change]
    exact h.changed (htold.accepted c (by simp [hevents])) (hcareful done _ rest db hevents hdb) hstep
  · intro done address txId daa rest db db' _ _ h hstep
    obtain ⟨sender, key, rows, pushes, -, -, -, rfl⟩ := handleSenderAddress_ok hstep
    rw [chainOf_other done (by simp)]
    exact h.of_headers (fun k => acceptorOf_cleared _ _ k) rfl fun _ _ hok => hok
  · intro done txId rest db _ h
    rw [chainOf_other done (by simp)]
    exact h

end

/-! ## Acceptance -/

/-- What is read of an indexed transaction: a block of the chain that accepts it, with its DAA score,
and nothing only where no block of the chain accepts it. -/
def Tells (acceptedBy : Hash → List TxId) (chain : List Hash) (db : Database) (txId : TxId) : Prop :=
  ∃ acceptance, acceptanceByTxId db.acceptance txId = .ok acceptance ∧
    (∀ v ∈ acceptance, v.acceptingBlockHash ∈ chain ∧ txId ∈ acceptedBy v.acceptingBlockHash ∧
      daaOf db v.acceptingBlockHash = .ok v.acceptingDaa) ∧
    (acceptance = none → ∀ hash ∈ chain, txId ∉ acceptedBy hash)

theorem mem_chainOf {events : List Event} {hash : Hash} (h : hash ∈ chainOf events) :
    ∃ c, Event.change c ∈ events ∧ hash ∈ c.added := by
  induction events using List.reverseRecOn with
  | nil => exact absurd h List.not_mem_nil
  | append_singleton events e ih =>
    have hbefore (h : hash ∈ chainOf events) :
        ∃ c, Event.change c ∈ events ++ [e] ∧ hash ∈ c.added := by
      obtain ⟨c, hc, hin⟩ := ih h
      exact ⟨c, List.mem_append_left _ hc, hin⟩
    cases e with
    | change c =>
      rw [chainOf_change] at h
      rcases mem_extend.mp h with ⟨h, -⟩ | h
      · exact hbefore h
      · exact ⟨c, by simp, h⟩
    | _ => exact hbefore (by rwa [chainOf_other _ (by simp)] at h)

/-- In runs whose steps are all careful, what is read of each indexed transaction is true. -/
theorem acceptance_true {acceptedBy : Hash → List TxId} {events : List Event}
    (hids : Identified (handled (blocksOf events)))
    (hsteady : Steady env (handled (blocksOf events))) (htold : Told acceptedBy events)
    (hcareful : EveryStep env events fun done db => Careful acceptedBy (chainOf done) db)
    {db : Database} (hrun : run env events .empty = .ok db) {txId : TxId}
    (hindexed : recordsOf db.acceptance txId ≠ []) :
    Tells acceptedBy (chainOf events) db txId := by
  have htruth := truth_run hids hsteady htold hcareful hrun
  have hreached := reached_run hids hrun
  have hone := (hreached.oneRecord_iff hids).mpr hsteady txId
  obtain ⟨record, hrecord⟩ : ∃ record, recordsOf db.acceptance txId = [record] :=
    List.length_eq_one_iff.mp (le_antisymm hone (List.length_pos_iff.mpr hindexed))
  obtain ⟨hmem, hid⟩ := mem_recordsOf.mp (show record ∈ recordsOf db.acceptance txId by simp [hrecord])
  have hacceptor : acceptorOf db.acceptance record.1 =
      some (record.2.acceptingBlockHash, record.2.acceptingDaa) := by
    rw [acceptorOf, get_of_mem hreached.shown.nodup hmem]
    rfl
  have hread : acceptanceByTxId db.acceptance txId = .ok ((some record.2).filter fun v =>
      ¬ (v.acceptingBlockHash = zeroHash ∧ v.acceptingDaa = 0)) := by
    rw [acceptanceByTxId, onlyRecord, hrecord]
    rfl
  refine ⟨_, hread, fun v hv => ?_, fun hnone hash hchain => ?_⟩
  · obtain ⟨hv, htest⟩ := Option.filter_eq_some_iff.mp hv
    obtain rfl := Option.some.inj hv
    rcases htruth.acceptor _ _ _ hacceptor with ⟨hzero, hdaa, -⟩ | ⟨hchain, haccepts, hdaa⟩
    · simp [hzero, hdaa] at htest
    · exact ⟨hchain, hid ▸ haccepts, hdaa⟩
  · have hzero : record.2.acceptingBlockHash = zeroHash ∧ record.2.acceptingDaa = 0 := by
      simpa using Option.filter_eq_none_iff.mp hnone record.2 rfl
    rcases htruth.acceptor _ _ _ hacceptor with ⟨-, -, hnone⟩ | ⟨hin, -, -⟩
    · exact hid ▸ hnone hash hchain
    · obtain ⟨c, hc, hadded⟩ := mem_chainOf hin
      exact absurd (hzero.1 ▸ hadded) (htold.named c hc)

/-! ### A block that leaves the chain -/

def sampleChainBlock (hash : UInt8) : RpcBlock :=
  ⟨⟨sampleId hash, 1, hash.toNat, hash.toNat⟩, []⟩

/-- Block 5 accepts the transaction, and so does block 6 if told so. -/
def sampleAccepts (again : Bool) (hash : Hash) : List TxId :=
  if hash = sampleId 5 ∨ again ∧ hash = sampleId 6 then [sampleId 2] else []

/-- Block 6 takes the place of block 5. -/
def reorganised (again : Bool) : List Event :=
  [.block (sampleBlock 1 sampleParent), .block (sampleChainBlock 5),
    .change ⟨[], [sampleId 5], [(sampleId 5, sampleAccepts again (sampleId 5))]⟩,
    .block (sampleChainBlock 6),
    .change ⟨[sampleId 5], [sampleId 6], [(sampleId 6, sampleAccepts again (sampleId 6))]⟩]

theorem reorganised_told (again : Bool) : Told (sampleAccepts again) (reorganised again) where
  accepted c hc := by
    simp only [reorganised, List.mem_cons, reduceCtorEq, Event.change.injEq, false_or,
      List.not_mem_nil, or_false] at hc
    rcases hc with rfl | rfl <;> rfl
  named c hc := by
    simp only [reorganised, List.mem_cons, reduceCtorEq, Event.change.injEq, false_or,
      List.not_mem_nil, or_false] at hc
    rcases hc with rfl | rfl <;> cases again <;> decide
  headers := by cases again <;> decide +kernel

theorem removed_still_read : ∃ db, run sampleEnv (reorganised false) .empty = .ok db ∧
    Identified (handled (blocksOf (reorganised false))) ∧
    Steady sampleEnv (handled (blocksOf (reorganised false))) ∧
    Told (sampleAccepts false) (reorganised false) ∧ recordsOf db.acceptance (sampleId 2) ≠ [] ∧
    ¬ Tells (sampleAccepts false) (chainOf (reorganised false)) db (sampleId 2) := by
  have hread : okAnd (run sampleEnv (reorganised false) .empty) (fun db =>
      decide (recordsOf db.acceptance (sampleId 2) ≠ []) &&
        okAnd (acceptanceByTxId db.acceptance (sampleId 2)) fun acceptance =>
          decide (acceptance.map (·.acceptingBlockHash) = some (sampleId 5))) = true := by
    decide +kernel
  obtain ⟨db, hrun, htest⟩ := exists_of_okAnd hread
  obtain ⟨hrecorded, htest⟩ := Bool.and_eq_true_iff.mp htest
  obtain ⟨acceptance, hread, htest⟩ := exists_of_okAnd htest
  refine ⟨db, hrun, by decide +kernel, ?_, reorganised_told false, of_decide_eq_true hrecorded, ?_⟩
  · unfold Steady
    decide +kernel
  · rintro ⟨other, hsame, hsome, -⟩
    obtain rfl := Except.ok.inj (hread.symm.trans hsame)
    obtain ⟨v, rfl, hhash⟩ := Option.map_eq_some_iff.mp (of_decide_eq_true htest)
    exact absurd (hhash ▸ (hsome v rfl).1) (by decide +kernel)

instance (acceptedBy : Hash → List TxId) (chain : List Hash) (db : Database) (e : Event) :
    Decidable (Careful acceptedBy chain db e) :=
  match e with
  | .change _ => inferInstanceAs (Decidable (∀ _ ∈ _, _))
  | .block _ => inferInstanceAs (Decidable (_ → _))
  | .resolved .. | .read _ => inferInstanceAs (Decidable True)

theorem reaccepted_read : ∃ db, run sampleEnv (reorganised true) .empty = .ok db ∧
    Tells (sampleAccepts true) (chainOf (reorganised true)) db (sampleId 2) := by
  have hread : okAnd (run sampleEnv (reorganised true) .empty) (fun db =>
      decide (recordsOf db.acceptance (sampleId 2) ≠ [])) = true := by
    decide +kernel
  obtain ⟨db, hrun, htest⟩ := exists_of_okAnd hread
  have hcareful : allSteps (handle sampleEnv) (fun done db e =>
      decide (Careful (sampleAccepts true) (chainOf done) db e)) [] (reorganised true) .empty =
        true := by
    decide +kernel
  have hsteady : Steady sampleEnv (handled (blocksOf (reorganised true))) := by
    unfold Steady
    decide +kernel
  exact ⟨db, hrun, acceptance_true (by decide +kernel) hsteady (reorganised_told true)
    (fun done e rest db hevents hdb => of_decide_eq_true (of_allSteps hcareful hevents hdb)) hrun
    (of_decide_eq_true htest)⟩

end KaChatIndexer.ChatChain

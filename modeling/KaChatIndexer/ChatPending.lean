import KaChatIndexer.ChatChain
import KaChatIndexer.ChatGroups

/-!
# Rows that wait for their sender

A change of the chain asks for the sender of each transaction that it accepts and that has entries.
A sighting adds entries and asks for nothing, so one without a sender is left waiting where its
transaction is accepted already and no answer is outstanding.
-/
namespace KaChatIndexer.ChatPending
open ByteStrings ChatPayload ChatRows ChatBlocks ChatAcceptance ChatSlots ChatRuns ChatChain
open ChatGroups Fallible

variable {env : Env}

/-! ## What a change asks for -/

/-- The sender of the transaction is asked for, under the DAA score of the block. -/
def Pending (db : Database) (hash : Hash) (txId : TxId) : Prop :=
  match daaOf db hash with
  | .ok daa => (daa, txId) ∈ keys db.pendingSenders
  | .error _ => False

instance (db : Database) (hash : Hash) (txId : TxId) : Decidable (Pending db hash txId) := by
  unfold Pending
  split <;> infer_instance

theorem pending_iff {db : Database} {hash : Hash} {txId : TxId} : Pending db hash txId ↔
    ∃ daa, daaOf db hash = .ok daa ∧ (daa, txId) ∈ keys db.pendingSenders := by
  unfold Pending
  cases daaOf db hash <;> simp

theorem mem_keys_erase {κ ν : Type} [DecidableEq κ] {p : Partition κ ν} {k k' : κ} :
    k' ∈ keys (erase p k) ↔ k' ≠ k ∧ k' ∈ keys p := by
  rw [← get_isSome, ← get_isSome, get_erase]
  split <;> simp_all

section
variable {db db' : Database} {daa : ℕ} {txId : TxId}

/-- What is asked for goes only with a transaction of a block that leaves. -/
theorem removals_pending {removed : List Hash}
    (h : foldSteps handleVccRemoval removed db = .ok db')
    (hpending : (daa, txId) ∈ keys db.pendingSenders)
    (hother : ∀ hash ∈ removed, ∀ txIds, get db.acceptingBlockToTxIds hash = some txIds →
      txId ∉ txIds) : (daa, txId) ∈ keys db'.pendingSenders := by
  refine steps_inv (fun _ s => (daa, txId) ∈ keys s.pendingSenders) ?_ hpending h
  intro done hash rest hremoved s s' hdone hs hstep
  unfold handleVccRemoval at hstep
  split at hstep
  · obtain rfl := Except.ok.inj hstep
    exact hs
  · next txIds hsome =>
    have hnot : txId ∉ txIds :=
      hother hash (by simp [hremoved]) txIds (removals_tracked hdone hash txIds hsome).2
    obtain ⟨acceptedAt, -, hfold⟩ := bind_ok hstep
    refine steps_inv (fun _ s => (daa, txId) ∈ keys s.pendingSenders) ?_ hs hfold
    intro before other after htxIds s₁ s₂ _ hs₁ hremove
    have hne : txId ≠ other := fun heq => hnot (by simp [htxIds, heq])
    obtain ⟨key, -, hremove⟩ := bind_ok hremove
    cases key with
    | none => cases hremove
    | some key =>
      obtain rfl := Except.ok.inj hremove
      dsimp only
      split
      · exact hs₁
      · exact mem_keys_erase.mpr ⟨by simp [hne], hs₁⟩

theorem addAccepted_pending {hash : Hash} {other : TxId}
    (h : addAccepted hash daa other db = .ok db') :
    (∀ k ∈ keys db.pendingSenders, k ∈ keys db'.pendingSenders) ∧
      ∀ key : AcceptanceKey, key.txId = other → entriesOf db.acceptance key ≠ [] →
        (daa, other) ∈ keys db'.pendingSenders := by
  obtain ⟨found, hfound, rfl⟩ := map_ok h
  have hrecord : ∀ key : AcceptanceKey, entriesOf db.acceptance key ≠ [] →
      key ∈ keys db.acceptance := by
    intro key hentries
    rw [← get_isSome]
    by_contra hnone
    exact hentries (by simp [entriesOf, Option.not_isSome_iff_eq_none.mp hnone])
  cases found with
  | none =>
    exact ⟨fun _ => id, fun key hid hentries =>
      absurd hid (keyByTxId_none hfound key (hrecord key hentries))⟩
  | some found =>
    refine ⟨fun k hk => ?_, fun key hid hentries => ?_⟩
    · dsimp only
      split
      · exact hk
      · exact mem_keys_put.mpr (.inr hk)
    · obtain rfl := keyByTxId_only hfound key (hrecord key hentries) hid
      dsimp only
      rw [if_neg hentries]
      exact mem_keys_put.mpr (.inl rfl)

/-- Each transaction of a block that comes is asked for when it has entries. -/
theorem additions_pending {blocks : List (Hash × List TxId)}
    (h : foldSteps handleVccAddition blocks db = .ok db') :
    (∀ k ∈ keys db.pendingSenders, k ∈ keys db'.pendingSenders) ∧
      ∀ block ∈ blocks, ∀ key : AcceptanceKey, key.txId ∈ block.2 →
        entriesOf db.acceptance key ≠ [] → Pending db' block.1 key.txId := by
  refine (steps_inv (fun done s => s.headers = db.headers ∧
    (∀ key, entriesOf s.acceptance key = entriesOf db.acceptance key) ∧
    (∀ k ∈ keys db.pendingSenders, k ∈ keys s.pendingSenders) ∧
      ∀ block ∈ done, ∀ key : AcceptanceKey, key.txId ∈ block.2 →
        entriesOf db.acceptance key ≠ [] → Pending s block.1 key.txId) ?_
    ⟨rfl, fun _ => rfl, fun _ => id, fun _ hmem => absurd hmem List.not_mem_nil⟩ h).2.2
  intro done block rest _ s s' _ ⟨hheaders, hentries, hmono, hasked⟩ hstep
  have huntouched := handleVccAddition_untouched hstep
  obtain ⟨acceptedAt, hdaa, hstep⟩ := bind_ok hstep
  obtain ⟨middle, hfold, rfl⟩ := map_ok hstep
  have hadded : (∀ k ∈ keys s.pendingSenders, k ∈ keys middle.pendingSenders) ∧
      ∀ key : AcceptanceKey, key.txId ∈ block.2 → entriesOf s.acceptance key ≠ [] →
        (acceptedAt, key.txId) ∈ keys middle.pendingSenders := by
    refine (steps_inv (fun before s₁ =>
      (∀ key, entriesOf s₁.acceptance key = entriesOf s.acceptance key) ∧
      (∀ k ∈ keys s.pendingSenders, k ∈ keys s₁.pendingSenders) ∧
        ∀ key : AcceptanceKey, key.txId ∈ before → entriesOf s.acceptance key ≠ [] →
          (acceptedAt, key.txId) ∈ keys s₁.pendingSenders) ?_
      ⟨fun _ => rfl, fun _ => id, fun _ hmem => absurd hmem List.not_mem_nil⟩ hfold).2
    intro before txId after _ s₁ s₂ _ ⟨hsame, hkept, hput⟩ hadd
    obtain ⟨hkept', hput'⟩ := addAccepted_pending hadd
    refine ⟨fun key => ((addAccepted_untouched hadd).entries key).trans (hsame key),
      fun k hk => hkept' k (hkept k hk), fun key hmem hne => ?_⟩
    rcases List.mem_append.mp hmem with hmem | hmem
    · exact hkept' _ (hput key hmem hne)
    · rw [List.mem_singleton.mp hmem]
      exact hput' key (List.mem_singleton.mp hmem) (hsame key ▸ hne)
  refine ⟨huntouched.headers.trans hheaders, fun key => (huntouched.entries key).trans (hentries key),
    fun k hk => hadded.1 k (hmono k hk), fun other hother key hmem hne => ?_⟩
  rw [pending_iff, daaOf_congr huntouched.headers]
  rcases List.mem_append.mp hother with hother | hother
  · obtain ⟨daa, hok, hpending⟩ := pending_iff.mp (hasked other hother key hmem hne)
    exact ⟨daa, hok, hadded.1 _ hpending⟩
  · obtain rfl := List.mem_singleton.mp hother
    exact ⟨acceptedAt, hdaa, hadded.2 key hmem (hentries key ▸ hne)⟩

end

/-! ## What is outstanding -/

/-- No transaction of a block that leaves is accepted by one that stays, unless it is named again. -/
def Once (acceptedBy : Hash → List TxId) (chain : List Hash) : Event → Prop
  | .change c => ∀ hash ∈ c.removed, hash ∈ chain → ∀ txId ∈ acceptedBy hash, ∀ other ∈ chain,
      other ∉ c.removed → txId ∈ acceptedBy other → other ∈ c.added
  | _ => True

/-- What a block that is new must not do: show a transaction that the chain accepts, without its
sender, when no answer is outstanding. -/
def Requested (env : Env) (acceptedBy : Hash → List TxId) (done : List Event) (db : Database) :
    Event → Prop
  | .block b => get db.headers b.header.hash = none → ∀ tx ∈ sealedOf b,
      ∀ op ∈ parseSealedOperation tx.payload, senderIn env (handled (blocksOf done)) tx = none →
        storeContent env (sightingOf env b.header tx none) op = true →
          ∀ hash ∈ chainOf done, tx.txId ∈ acceptedBy hash → Pending db hash tx.txId
  | _ => True

/-- The sender of a transaction that has entries and is accepted is asked for. -/
def Asked (acceptedBy : Hash → List TxId) (chain : List Hash) (db : Database) : Prop :=
  ∀ key, entriesOf db.acceptance key ≠ [] → ∀ hash ∈ chain, key.txId ∈ acceptedBy hash →
    Pending db hash key.txId

/-- A row has its owner for a sender, or it is among the entries of its transaction. -/
structure Rowed (owner : TxId → AddressPayload) (db : Database) : Prop where
  rows : ∀ slot a, senderAt db.rows slot = some a → (a = owner (txIdOf slot) ∧ a ≠ default) ∨
    (a = default ∧ keySender slot = none ∧ ∃ key, slot ∈ entriesOf db.acceptance key)
  entries : ∀ key, ∀ slot ∈ entriesOf db.acceptance key, txIdOf slot = key.txId

section
variable {acceptedBy : Hash → List TxId} {chain : List Hash} {db db' : Database}

theorem Asked.changed (h : Asked acceptedBy chain db) (htracked : Tracked acceptedBy chain db)
    {c : ChainChange} (haccepted : c.accepted = c.added.map fun h => (h, acceptedBy h))
    (honce : Once acceptedBy chain (.change c)) (hstep : handleVcc c db = .ok db') :
    Asked acceptedBy (extend chain c) db' := by
  have huntouched := handleVcc_untouched hstep
  obtain ⟨middle, hremoved, hadded⟩ := handleVcc_ok hstep
  obtain ⟨hkept, hput⟩ := additions_pending hadded
  intro key hentries hash hhash hmem
  rw [huntouched.entries] at hentries
  by_cases hin : hash ∈ c.added
  · refine hput (hash, acceptedBy hash) (haccepted ▸ List.mem_map_of_mem hin) key hmem ?_
    rwa [(removals_untouched hremoved).entries]
  · obtain ⟨hchain, hstays⟩ := (mem_extend.mp hhash).resolve_right hin
    obtain ⟨daa, hdaa, hpending⟩ := pending_iff.mp (h key hentries hash hchain hmem)
    refine pending_iff.mpr ⟨daa, by rwa [daaOf_congr huntouched.headers], hkept _ ?_⟩
    refine removals_pending hremoved hpending fun other hother txIds hget htx => ?_
    obtain ⟨hotherChain, hsub⟩ := htracked other txIds hget
    exact hin (honce other hother hotherChain key.txId (hsub htx) hash hchain hstays hmem)

theorem Rowed.untouched {owner : TxId → AddressPayload} (h : Rowed owner db)
    (hsame : Untouched db db') : Rowed owner db' where
  rows slot a ha := by
    rw [hsame.rows] at ha
    refine (h.rows slot a ha).imp id fun ⟨hdefault, hkey, key, hentry⟩ =>
      ⟨hdefault, hkey, key, ?_⟩
    rwa [hsame.entries]
  entries key slot hslot := h.entries key slot (hsame.entries key ▸ hslot)

/-- After an answer a row has the sender, or it is as before and no entry of the answer. -/
theorem resolveEntries_senders {r : Resolution} {entries : List Slot} {rows rows' : Rows}
    {pushes : List PushEvent} (h : resolveEntries r entries rows = some (rows', pushes)) :
    ∀ slot a, senderAt rows' slot = some a →
      (a = r.sender ∧ ∃ entry ∈ entries, slot = withSender r.sender entry) ∨
        senderAt rows slot = some a ∧ (a = default → keySender slot = none → slot ∉ entries) := by
  induction entries generalizing rows pushes with
  | nil =>
    obtain ⟨rfl, -⟩ := Prod.ext_iff.mp (Option.some.inj h)
    exact fun slot a ha => .inr ⟨ha, fun _ _ => List.not_mem_nil⟩
  | cons entry entries ih =>
    obtain ⟨⟨middle, first⟩, hfirst, h⟩ := Option.bind_eq_some_iff.mp h
    obtain ⟨⟨last, rest⟩, hrest, heq⟩ := Option.map_eq_some_iff.mp h
    obtain ⟨rfl, -⟩ := Prod.ext_iff.mp heq
    intro slot a ha
    rcases ih hrest slot a ha with ⟨heq, found, hfound, hslot⟩ | ⟨ha, hnot⟩
    · exact .inl ⟨heq, found, List.mem_cons_of_mem _ hfound, hslot⟩
    · rcases resolveEntry_answered hfirst with ⟨hfilled, -⟩ | ⟨-, hsenders, -⟩
      · have hrow := hfilled slot
        simp only [List.mem_singleton] at hrow
        rw [hrow] at ha
        by_cases hslot : slot = withSender r.sender entry
        · rw [if_pos hslot] at ha
          unfold held at ha
          split at ha
          · next hold =>
            obtain ⟨old, hrow⟩ : ∃ old, senderAt rows slot = some old := by
              cases hrow : senderAt rows slot with
              | none => simp [hrow] at hold
              | some old => exact ⟨old, rfl⟩
            rw [hrow, Option.getD_some] at hold ha
            obtain rfl := Option.some.inj ha
            exact .inr ⟨hrow, fun hdefault => absurd hdefault hold⟩
          · exact .inl ⟨(Option.some.inj ha).symm, entry, by simp, hslot⟩
        · rw [if_neg hslot] at ha
          refine .inr ⟨ha, fun hdefault hkey hmem => ?_⟩
          rcases List.mem_cons.mp hmem with rfl | hmem
          · exact hslot (withSender_eq hkey).symm
          · exact hnot hdefault hkey hmem
      · rw [hsenders] at ha
        split at ha
        · cases ha
        · next hne =>
          refine .inr ⟨ha, fun hdefault hkey hmem => ?_⟩
          rcases List.mem_cons.mp hmem with rfl | hmem
          · exact hne rfl
          · exact hnot hdefault hkey hmem

/-- An answer for a transaction fills all its rows that wait, and takes the question back. -/
theorem answered_rowed {owner : TxId → AddressPayload} {address : ScriptPublicKey} {txId : TxId}
    {daa : ℕ} (h : Rowed owner db)
    (howner : ∀ a, AddressPayload.tryFrom env address = some a → a = owner txId)
    (hstep : handleSenderAddress env address txId daa db = .ok db') : Rowed owner db' := by
  obtain ⟨sender, key, rows, pushes, hsender, hkey, hresolve, rfl⟩ := handleSenderAddress_ok hstep
  obtain ⟨-, hid⟩ := keyByTxId_some hkey
  have hentries : ∀ k, ∀ slot ∈ entriesOf (updateRecord db.acceptance key fun old =>
      { old with entries := [] }) k, slot ∈ entriesOf db.acceptance k := by
    intro k slot hslot
    rw [entriesOf_cleared] at hslot
    split at hslot
    · exact absurd hslot List.not_mem_nil
    · exact hslot
  refine ⟨fun slot a ha => ?_, fun k slot hslot => h.entries k slot (hentries k slot hslot)⟩
  rcases resolveEntries_senders hresolve slot a ha with ⟨rfl, entry, hentry, rfl⟩ | ⟨ha, hnot⟩
  · left
    rw [txIdOf_withSender, h.entries key entry hentry, hid]
    exact ⟨howner _ hsender, tryFrom_ne_default hsender⟩
  · refine (h.rows slot a ha).imp id fun ⟨hdefault, hsenderless, k, hslot⟩ =>
      ⟨hdefault, hsenderless, k, ?_⟩
    dsimp only
    rw [entriesOf_cleared, if_neg]
    · exact hslot
    · rintro rfl
      exact hnot hdefault hsenderless hslot

theorem answered_asked {address : ScriptPublicKey} {txId : TxId} {daa : ℕ}
    (h : Asked acceptedBy chain db)
    (hstep : handleSenderAddress env address txId daa db = .ok db') :
    Asked acceptedBy chain db' := by
  obtain ⟨sender, key, rows, pushes, -, hkey, -, rfl⟩ := handleSenderAddress_ok hstep
  intro k hentries hash hhash hmem
  dsimp only at hentries
  rw [entriesOf_cleared] at hentries
  split at hentries
  · exact absurd rfl hentries
  · next hne =>
    obtain ⟨acceptedAt, hdaa, hpending⟩ := pending_iff.mp (h k hentries hash hhash hmem)
    refine pending_iff.mpr ⟨acceptedAt, hdaa, mem_keys_erase.mpr ⟨fun heq => hne ?_, hpending⟩⟩
    have hrecord : k ∈ keys db.acceptance := by
      rw [← get_isSome]
      by_contra hnone
      exact hentries (by simp [entriesOf, Option.not_isSome_iff_eq_none.mp hnone])
    exact keyByTxId_only hkey k hrecord (Prod.ext_iff.mp heq).2

/-! ## Sightings -/

variable {owner : TxId → AddressPayload} {events done rest : List Event} {b : RpcBlock}
  {tx : RpcTransaction} {op : SealedOperation} {wtx wtx' : Database}

/-- A handler stores rows with the sender, or entries for the rows without one. -/
theorem handled_rowed {s : Sighting} {rows : Rows} {w : Written} (hw : Handled env s op rows w) :
    (∀ slot a, senderAt w.rows slot = some a → senderAt rows slot = some a ∨
      (s.sender = some a ∧ txIdOf slot = s.txId) ∨
        (a = default ∧ keySender slot = none ∧ slot ∈ w.entries)) ∧
      (∀ slot ∈ w.entries, txIdOf slot = s.txId) ∧
      (w.entries ≠ [] → s.sender = none ∧ storeContent env s op = true) := by
  have hkeep : ∀ w : Written, w.entries = [] → senderAt w.rows = senderAt rows →
      (∀ slot a, senderAt w.rows slot = some a → senderAt rows slot = some a ∨
        (s.sender = some a ∧ txIdOf slot = s.txId) ∨
          (a = default ∧ keySender slot = none ∧ slot ∈ w.entries)) ∧
        (∀ slot ∈ w.entries, txIdOf slot = s.txId) ∧
        (w.entries ≠ [] → s.sender = none ∧ storeContent env s op = true) := by
    intro w hentries hrows
    refine ⟨fun slot a ha => .inl (hrows ▸ ha), fun slot hslot => ?_, fun hne => absurd hentries hne⟩
    rw [hentries] at hslot
    exact absurd hslot List.not_mem_nil
  unfold Handled at hw
  split at hw
  · next hstore =>
    by_cases hadmits : ∀ a ∈ s.sender, admits rows a op = true
    · obtain ⟨-, hentries, hrows⟩ := handleOperation_writes hw hadmits
      cases hsender : s.sender with
      | none =>
        simp only [hsender, if_true] at hentries hrows
        refine ⟨fun slot a ha => ?_, fun slot hslot => ?_, fun _ => ⟨rfl, hstore⟩⟩
        · rw [hrows slot] at ha
          split at ha
          · next hslot =>
            obtain ⟨hslot, hkey⟩ := List.mem_filter.mp hslot
            rw [Option.getD_none, held_default] at ha
            cases hrow : senderAt rows slot with
            | some old => exact .inl (by simpa [hrow] using ha)
            | none =>
              rw [hrow] at ha
              exact .inr (.inr ⟨(Option.some.inj ha).symm, of_decide_eq_true hkey, hentries ▸ hslot⟩)
          · exact .inl ha
        · exact (slotsOf_spec (hentries ▸ hslot)).2.1
      | some sender =>
        simp only [hsender, reduceCtorEq, if_false] at hentries hrows
        refine ⟨fun slot a ha => ?_, fun slot hslot => ?_, fun hne => absurd hentries hne⟩
        · rw [hrows slot] at ha
          split at ha
          · next hslot =>
            have hid := (slotsOf_spec hslot).2.1
            unfold held at ha
            split at ha
            · next hold =>
              cases hrow : senderAt rows slot with
              | none => simp [hrow] at hold
              | some old => exact .inl (by simpa [hrow] using ha)
            · exact .inr (.inl ⟨ha, hid⟩)
          · exact .inl ha
        · rw [hentries] at hslot
          exact absurd hslot List.not_mem_nil
    · push Not at hadmits
      obtain ⟨a, ha, hrejects⟩ := hadmits
      obtain ⟨hentries, hrows, -⟩ := handleOperation_rejects hw ha (by simpa using hrejects)
      exact hkeep w hentries hrows
  · subst hw
    exact hkeep _ rfl rfl

theorem Rowed.indexed (h : Rowed owner wtx) (hids : Identified (handled (blocksOf events)))
    (howned : Owned env owner events) (hevents : events = done ++ .block b :: rest)
    (hindexes : Indexes env done b tx op wtx wtx') : Rowed owner wtx' := by
  have hsender : ∀ a, senderIn env (handled (blocksOf done)) tx = some a →
      a = owner tx.txId ∧ a ≠ default := by
    intro a ha
    obtain ⟨script, hscript⟩ := senderIn_standard ha
    exact ⟨howned.senders _ (hindexes.seen hids hevents) a ha, tryFrom_ne_default hscript⟩
  obtain ⟨w, owners, hhandled, -, rfl⟩ := indexTransaction_ok hindexes.indexed
  obtain ⟨hrows, hentries, -⟩ := handled_rowed hhandled
  refine ⟨fun slot a ha => ?_, fun k slot hslot => ?_⟩
  · rcases hrows slot a ha with ha | ⟨ha, hid⟩ | ⟨hdefault, hkey, hslot⟩
    · refine (h.rows slot a ha).imp id fun ⟨hdefault, hkey, k, hslot⟩ => ⟨hdefault, hkey, k, ?_⟩
      dsimp only
      rw [entriesOf_insertAcceptance]
      split
      · exact List.mem_append_left _ hslot
      · exact hslot
    · left
      rw [hid]
      exact hsender a ha
    · refine .inr ⟨hdefault, hkey, ⟨tx.txId, (sightingOf env b.header tx
        (senderIn env (handled (blocksOf done)) tx)).receiver⟩, ?_⟩
      dsimp only
      rw [entriesOf_insertAcceptance, if_pos rfl]
      exact List.mem_append_right _ hslot
  · dsimp only at hslot
    rw [entriesOf_insertAcceptance] at hslot
    split at hslot
    · next hk =>
      rcases List.mem_append.mp hslot with hslot | hslot
      · exact h.entries k slot hslot
      · rw [hk]
        exact hentries slot hslot
    · exact h.entries k slot hslot

theorem Asked.indexed (h : Asked acceptedBy (chainOf done) wtx)
    (hids : Identified (handled (blocksOf events))) (htold : Told acceptedBy events)
    (hrequested : EveryStep env events (Requested env acceptedBy))
    (hevents : events = done ++ .block b :: rest) (hindexes : Indexes env done b tx op wtx wtx') :
    Asked acceptedBy (chainOf done) wtx' := by
  obtain ⟨db, hdb, hnew, hbegins⟩ := hindexes.begins
  obtain ⟨w, owners, hhandled, -, rfl⟩ := indexTransaction_ok hindexes.indexed
  obtain ⟨-, -, hwaits⟩ := handled_rowed hhandled
  intro key hentries hash hhash hmem
  dsimp only at hentries
  rw [entriesOf_insertAcceptance] at hentries
  by_cases hbefore : entriesOf wtx.acceptance key = []
  · split at hentries
    · next hk =>
      rw [hbefore, List.nil_append] at hentries
      obtain ⟨hsender, hstore⟩ := hwaits hentries
      have hstep : Requested env acceptedBy done db (.block b) :=
        hrequested done _ rest db hevents hdb
      have hsender : senderIn env (handled (blocksOf done)) tx = none := hsender
      rw [hsender] at hstore
      have hid : key.txId = tx.txId := congrArg AcceptanceKey.txId hk
      rw [hid] at hmem ⊢
      obtain ⟨daa, hdaa, hpending⟩ := pending_iff.mp (hstep hnew tx hindexes.mem_sealed op
        hindexes.parsed hsender hstore hash hhash hmem)
      refine pending_iff.mpr ⟨daa, ?_, ?_⟩
      · show daaOf wtx hash = .ok daa
        rw [daaOf_congr hbegins.headers]
        exact daaOf_begun hids htold hevents hdb hdaa
      · exact hbegins.pending ▸ hpending
    · exact absurd hbefore hentries
  · exact h key hbefore hash hhash hmem

/-! ## Runs -/

/-- What each event keeps. -/
structure Outstanding (owner : TxId → AddressPayload) (acceptedBy : Hash → List TxId)
    (chain : List Hash) (db : Database) : Prop where
  tracked : Tracked acceptedBy chain db
  asked : Asked acceptedBy chain db
  rowed : Rowed owner db

theorem outstanding_run (hids : Identified (handled (blocksOf events)))
    (htold : Told acceptedBy events)
    (honce : ∀ done e rest, events = done ++ e :: rest → Once acceptedBy (chainOf done) e)
    (howned : Owned env owner events)
    (hrequested : EveryStep env events (Requested env acceptedBy))
    (hrun : run env events .empty = .ok db) :
    Outstanding owner acceptedBy (chainOf events) db := by
  refine run_inv (P := fun done db => Outstanding owner acceptedBy (chainOf done) db) hids
    ?_ ?_ ?_ ?_ ?_ ?_ hrun
  · refine ⟨fun _ _ h => ?_, fun _ h => absurd rfl h, ⟨fun slot _ h => ?_, fun _ _ h => ?_⟩⟩
    · cases h
    · cases slot <;> cases h
    · exact absurd h List.not_mem_nil
  · intro done b rest db hevents hdb h
    rw [chainOf_other done (by simp)]
    refine ⟨h.tracked, fun key hentries hash hhash hmem => ?_, ⟨h.rowed.rows, h.rowed.entries⟩⟩
    obtain ⟨daa, hdaa, hpending⟩ := pending_iff.mp (h.asked key hentries hash hhash hmem)
    exact pending_iff.mpr ⟨daa, daaOf_begun hids htold hevents hdb hdaa, hpending⟩
  · intro done b rest tx op wtx wtx' hevents hindexes h
    rw [chainOf_other done (by simp)] at h ⊢
    refine ⟨?_, h.asked.indexed hids htold hrequested hevents hindexes,
      h.rowed.indexed hids howned hevents hindexes⟩
    obtain ⟨w, owners, -, -, heq⟩ := indexTransaction_ok hindexes.indexed
    rw [heq]
    exact h.tracked
  · intro done c rest db db' hevents hdb h hstep
    have haccepted := htold.accepted c (by simp [hevents])
    rw [chainOf_change]
    exact ⟨h.tracked.changed haccepted hstep,
      h.asked.changed h.tracked haccepted (honce done _ rest hevents) hstep,
      h.rowed.untouched (handleVcc_untouched hstep)⟩
  · intro done address txId daa rest db db' hevents _ h hstep
    rw [chainOf_other done (by simp)]
    refine ⟨?_, answered_asked h.asked hstep,
      answered_rowed h.rowed (howned.answers address txId daa (by simp [hevents])) hstep⟩
    obtain ⟨sender, key, rows, pushes, -, -, -, heq⟩ := handleSenderAddress_ok hstep
    rw [heq]
    exact h.tracked
  · intro done txId rest db _ h
    rw [chainOf_other done (by simp)]
    exact h

/-- Of a transaction that the block of the chain accepts: entries are asked for, and otherwise each
row has its owner, and a message that is refused has none. -/
structure Settled (owner : TxId → AddressPayload) (blocks : List RpcBlock) (db : Database)
    (hash : Hash) (txId : TxId) : Prop where
  outstanding : ∀ key : AcceptanceKey, key.txId = txId → entriesOf db.acceptance key ≠ [] →
    Pending db hash txId
  named : ¬ Pending db hash txId → ∀ slot a, txIdOf slot = txId → senderAt db.rows slot = some a →
    a = owner txId ∧ a ≠ default
  refused : ¬ Pending db hash txId → ∀ m, MessageOf blocks txId m → Refused owner db.rows txId m →
    ∀ key : GroupMessageKeyByBlindedGroupId, key.txId = txId →
      get db.rows.groupMessageByBlindedGroupId key = none

/-- In runs whose steps show no accepted transaction without its sender when no answer is
outstanding, nothing that is accepted is left waiting. -/
theorem nothing_stranded (hids : Identified (handled (blocksOf events)))
    (htold : Told acceptedBy events)
    (honce : ∀ done e rest, events = done ++ e :: rest → Once acceptedBy (chainOf done) e)
    (howned : Owned env owner events)
    (hrequested : EveryStep env events (Requested env acceptedBy))
    (hrun : run env events .empty = .ok db) {hash : Hash} (hchain : hash ∈ chainOf events)
    {txId : TxId} (haccepted : txId ∈ acceptedBy hash) :
    Settled owner (handled (blocksOf events)) db hash txId := by
  obtain ⟨-, hasked, hrowed⟩ := outstanding_run hids htold honce howned hrequested hrun
  obtain ⟨hgrouped, -⟩ := agree_run hids howned hrun
  have houtstanding : ∀ key : AcceptanceKey, key.txId = txId → entriesOf db.acceptance key ≠ [] →
      Pending db hash txId := by
    rintro key rfl hentries
    exact hasked key hentries hash hchain haccepted
  have hnamed : ¬ Pending db hash txId → ∀ slot a, txIdOf slot = txId →
      senderAt db.rows slot = some a → a = owner txId ∧ a ≠ default := by
    rintro hnot slot a rfl ha
    refine (hrowed.rows slot a ha).resolve_right ?_
    rintro ⟨-, -, key, hslot⟩
    exact hnot (houtstanding key (hrowed.entries key slot hslot).symm (List.ne_nil_of_mem hslot))
  refine ⟨houtstanding, hnamed, fun hnot m hm hrefused key hkey => ?_⟩
  cases hget : get db.rows.groupMessageByBlindedGroupId key with
  | none => rfl
  | some a =>
    subst hkey
    obtain ⟨-, hne⟩ := hnamed hnot (.groupMessageByBlindedGroupId key) a rfl hget
    obtain ⟨m', hm'⟩ := hgrouped.named key a hget
    obtain ⟨-, hadmitted, -⟩ := hgrouped.admitted key a hget hne m' hm'
    rw [hm'.1.unique hids hm] at hadmitted
    exact absurd hrefused hadmitted.not_refused

end

/-! ### A sighting after the answer -/

instance (acceptedBy : Hash → List TxId) (done : List Event) (db : Database) (e : Event) :
    Decidable (Requested env acceptedBy done db e) :=
  match e with
  | .block _ => inferInstanceAs (Decidable (_ → _))
  | .change _ | .resolved .. | .read _ => inferInstanceAs (Decidable True)

def accepting : List Event :=
  [.block (sampleBlock 1 sampleParent), .block (sampleChainBlock 5),
    .change ⟨[], [sampleId 5], [(sampleId 5, sampleAccepts false (sampleId 5))]⟩]

def answer : Event := .resolved (sampleScript 7) (sampleId 2) 5

/-- The transaction is seen in another block, after the answer or before it. -/
def sightedAgain (late : Bool) : List Event :=
  accepting ++ if late then [answer, .block (sampleBlock 3 sampleParent)]
    else [.block (sampleBlock 3 sampleParent), answer]

def sampleOwner : TxId → AddressPayload := fun _ => .fromXonlyPubkey (sampleId 7)

theorem sampleScript_owner : AddressPayload.tryFrom sampleEnv (sampleScript 7) =
    some (.fromXonlyPubkey (sampleId 7)) := by decide +kernel

theorem sightedAgain_mem {late : Bool} {e : Event} (he : e ∈ sightedAgain late) :
    e ∈ accepting ∨ e = answer ∨ e = .block (sampleBlock 3 sampleParent) := by
  rcases List.mem_append.mp he with he | he
  · exact .inl he
  · cases late <;> simp at he <;> tauto

theorem sightedAgain_change {late : Bool} {c : ChainChange}
    (hc : .change c ∈ sightedAgain late) :
    c = ⟨[], [sampleId 5], [(sampleId 5, sampleAccepts false (sampleId 5))]⟩ := by
  rcases sightedAgain_mem hc with hc | hc | hc
  · simpa [accepting] using hc
  · cases hc
  · cases hc

theorem sightedAgain_told (late : Bool) : Told (sampleAccepts false) (sightedAgain late) where
  accepted c hc := by
    rw [sightedAgain_change hc]
    rfl
  named c hc := by
    rw [sightedAgain_change hc]
    decide
  headers := by cases late <;> decide +kernel

theorem sightedAgain_once (late : Bool) : ∀ done e rest, sightedAgain late = done ++ e :: rest →
    Once (sampleAccepts false) (chainOf done) e := by
  intro done e rest hevents
  cases e with
  | change c =>
    rw [sightedAgain_change (by simp [hevents] : .change c ∈ sightedAgain late)]
    exact fun _ hmem => absurd hmem List.not_mem_nil
  | _ => trivial

theorem sightedAgain_owned (late : Bool) : Owned sampleEnv sampleOwner (sightedAgain late) where
  answers address txId daa he a ha := by
    rcases sightedAgain_mem he with he | he | he
    · simp [accepting] at he
    · obtain ⟨rfl, -, -⟩ := Event.resolved.inj he
      exact Option.some.inj (ha.symm.trans sampleScript_owner)
    · cases he
  senders := by cases late <;> decide +kernel

theorem late_stranded : ∃ db, run sampleEnv (sightedAgain true) .empty = .ok db ∧
    Identified (handled (blocksOf (sightedAgain true))) ∧
    Told (sampleAccepts false) (sightedAgain true) ∧
    (∀ done e rest, sightedAgain true = done ++ e :: rest →
      Once (sampleAccepts false) (chainOf done) e) ∧
    Owned sampleEnv sampleOwner (sightedAgain true) ∧
    sampleId 5 ∈ chainOf (sightedAgain true) ∧ sampleId 2 ∈ sampleAccepts false (sampleId 5) ∧
    ¬ Settled sampleOwner (handled (blocksOf (sightedAgain true))) db (sampleId 5) (sampleId 2) := by
  have hwaits : okAnd (run sampleEnv (sightedAgain true) .empty) (fun db => decide (
      (entriesOf db.acceptance ⟨sampleId 2, .fromXonlyPubkey (sampleId 7)⟩).length ≠ 0 ∧
        ¬ Pending db (sampleId 5) (sampleId 2))) = true := by
    decide +kernel
  obtain ⟨db, hrun, htest⟩ := exists_of_okAnd hwaits
  obtain ⟨hentries, hnot⟩ := of_decide_eq_true htest
  refine ⟨db, hrun, by decide +kernel, sightedAgain_told true, sightedAgain_once true,
    sightedAgain_owned true, by decide +kernel, by decide +kernel, fun h => hnot ?_⟩
  exact h.outstanding ⟨sampleId 2, .fromXonlyPubkey (sampleId 7)⟩ rfl
    (List.length_pos_iff.mp (Nat.pos_of_ne_zero hentries))

theorem early_settled : ∃ db, run sampleEnv (sightedAgain false) .empty = .ok db ∧
    Settled sampleOwner (handled (blocksOf (sightedAgain false))) db (sampleId 5) (sampleId 2) := by
  have hruns : okAnd (run sampleEnv (sightedAgain false) .empty) (fun _ => true) = true := by
    decide +kernel
  obtain ⟨db, hrun, -⟩ := exists_of_okAnd hruns
  have hrequested : allSteps (handle sampleEnv) (fun done db e =>
      decide (Requested sampleEnv (sampleAccepts false) done db e)) [] (sightedAgain false) .empty =
        true := by
    decide +kernel
  exact ⟨db, hrun, nothing_stranded (by decide +kernel) (sightedAgain_told false)
    (sightedAgain_once false) (sightedAgain_owned false)
    (fun done e rest db hevents hdb => of_decide_eq_true (of_allSteps hrequested hevents hdb)) hrun
    (by decide +kernel) (by decide +kernel)⟩

end KaChatIndexer.ChatPending

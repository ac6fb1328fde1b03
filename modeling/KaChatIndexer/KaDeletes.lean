import KaChatIndexer.KaSample
import KaChatIndexer.KaStatements

/-!
# Deleted contents

A save looks for the author's tombstone after it has written, a delete for the content after it has
written its tombstone: one of the two sees the other. A vote and an edit's mentions look before they
write only, so they are left behind when the delete comes in between.
-/
namespace KaChatIndexer.KaDeletes
open ByteStrings KaText KaActions KaStore KaHandlers KaSample KaStatements Interleaving
open Interleaving.Prog

variable {env : Env} {outputs : Bytes → Option (Option (List TxOutput))} {post author : Bytes}

/-- The content is there. -/
abbrev Stands (post : Bytes) (db : Db) : Prop := ∃ c ∈ db.contents, c.transactionId = post

/-- No vote is on the content, and no mention carries its id. -/
def Bare (post : Bytes) (db : Db) : Prop :=
  (∀ v ∈ db.votes, v.postId ≠ post) ∧ ∀ m ∈ db.mentions, m.contentId ≠ post

/-- The content is gone, with everything on it. -/
def Gone (post : Bytes) (db : Db) : Prop := ¬ Stands post db ∧ Bare post db

/-- Nothing is known of the content yet. -/
structure Untouched (post : Bytes) (db : Db) : Prop where
  gone : Gone post db
  tombstone : ∀ author, db.hasTombstone post author = false

/-- The transactions of a run: the content `post` is its author's, and nobody takes it back by an
unquote or purges its author. -/
structure Proper (env : Env) (post author : Bytes) (transaction : Transaction) : Prop where
  content : transaction.transactionId = post → ∀ action, transaction.action env = some action →
    contentKind action.kind = true ∧
      ∀ text, actionSenderPubkey action = some text → hexDecode text = some author
  kind : ∀ action, transaction.action env = some action → action.kind ≠ .unquote ∧
    action.kind ≠ .block

/-- A delete of the content that its author has signed. -/
def Deletes (env : Env) (post author : Bytes) (transaction : Transaction) : Prop :=
  ∃ k, Acts env transaction (.delete k) author ∧ hexDecode k.postId = some post

/-- Whether a statement writes a vote on the content or an edit's mention of it. -/
def addsTo (post : Bytes) : Sql → Bool
  | .voteCommit target | .editMentionInsert target => target = post
  | _ => false

/-- Votes and mentions are written while the content stands. -/
def OnStanding (post : Bytes) (ev : Sql) (db : Db) : Prop := addsTo post ev = true → Stands post db

instance (ev : Sql) (db : Db) : Decidable (OnStanding post ev db) :=
  inferInstanceAs (Decidable (addsTo post ev = true → Stands post db))

/-! ## The contract -/

/-- What a run knows: who wrote the content, who signed its tombstone, and that the delete in
question will pass its check. -/
structure Known (env : Env) (post author : Bytes) (ours : Transaction → Prop) (own : Bytes × Bytes)
    (key : Text) (db : Db) : Prop where
  wrote : ∀ c ∈ db.contents, c.transactionId = post → c.senderPubkey = author
  signed : db.hasTombstone post author = true → ∃ transaction, ours transaction ∧
    Deletes env post author transaction
  owned : Owned own.1 own.2 db
  allowed : db.denies key = false

/-- What stays: tombstones, uses of a signature, and the content until it has a tombstone. -/
structure Keeps (post author : Bytes) (own : Bytes × Bytes) (db db' : Db) : Prop where
  tombstone : db.hasTombstone post author = true → db'.hasTombstone post author = true
  stands : Stands post db → Stands post db' ∨ db'.hasTombstone post author = true
  used : ∀ first, db.usedBy own.1 = some first → db'.usedBy own.1 = some first

variable {ours : Transaction → Prop} {own : Bytes × Bytes} {key : Text}

theorem Keeps.refl (db : Db) : Keeps post author own db db := ⟨id, .inl, fun _ => id⟩

theorem Keeps.trans {s t u : Db} (h : Keeps post author own s t) (h' : Keeps post author own t u) :
    Keeps post author own s u where
  tombstone ht := h'.tombstone (h.tombstone ht)
  stands hs := (h.stands hs).elim h'.stands fun ht => .inr (h'.tombstone ht)
  used first hf := h'.used first (h.used first hf)

def contract (env : Env) (post author : Bytes) (ours : Transaction → Prop) (own : Bytes × Bytes)
    (key : Text) : Contract Db Sql Transaction where
  rely s t := Keeps post author own s t ∧
    (Known env post author ours own key s → Known env post author ours own key t)
  inv := Known env post author ours own key
  told _ _ _ := True
  refl s := ⟨.refl s, id⟩
  trans _ _ _ h h' := ⟨h.1.trans h'.1, h'.2 ∘ h.2⟩
  inv_rely _ _ h := h.2
  told_rely _ _ _ _ _ := id

/-- What the contract speaks of. -/
def core (db : Db) : List Content × List Deletion × List (Bytes × Bytes) × List Text :=
  (db.contents, db.deleteTombstones, db.usedSignatures, db.kapostsDenylist)

theorem rely_of_core {s t : Db} (h : core t = core s) :
    (contract env post author ours own key).rely s t := by
  obtain ⟨hcontents, htombs, hused, hdeny⟩ :
      t.contents = s.contents ∧ t.deleteTombstones = s.deleteTombstones ∧
        t.usedSignatures = s.usedSignatures ∧ t.kapostsDenylist = s.kapostsDenylist := by
    simpa [core] using h
  have htomb : t.hasTombstone post author = s.hasTombstone post author := by
    simp [Db.hasTombstone, htombs]
  have hby (sig : Bytes) : t.usedBy sig = s.usedBy sig := by simp [Db.usedBy, hused]
  refine ⟨⟨fun h => htomb ▸ h, fun h => .inl ?_, fun first h => hby _ ▸ h⟩, fun hknown =>
    ⟨hcontents ▸ hknown.wrote, fun h => hknown.signed (htomb ▸ h), fun first h =>
      hknown.owned first (hby _ ▸ h), ?_⟩⟩
  · rw [Stands, hcontents]
    exact h
  · have hallowed := hknown.allowed
    rw [Db.denies, hdeny]
    exact hallowed

section
variable {transaction : Transaction} {s : Db}

theorem rely_used {signature : Bytes} (hsig : transaction.signature env = some signature)
    (hown : transaction.signature env = some own.1 → transaction.transactionId = own.2) :
    (contract env post author ours own key).rely s
      (s.insertUsed signature transaction.transactionId).2 := by
  have hsame := tables_insertUsed signature transaction.transactionId s
  have htomb := congrArg (fun db => Db.hasTombstone db post author) hsame
  have hstands := congrArg (fun db => Stands post db) hsame
  have hdeny := congrArg (fun db => Db.denies db key) hsame
  have hcontents := congrArg Db.contents hsame
  refine ⟨⟨fun h => htomb.trans h, fun h => .inl (hstands.mpr h), fun first =>
    used_insertUsed_mono _ first⟩, fun hknown => ⟨?_, fun h => hknown.signed (htomb.symm.trans h),
      owned_insertUsed (fun heq => hown (heq ▸ hsig)) hknown.owned, hdeny.trans hknown.allowed⟩⟩
  exact fun c hc => hknown.wrote c (hcontents ▸ hc)

theorem rely_content {row : Content} {mentions : List Mention}
    (hrow : row.transactionId = post → row.senderPubkey = author) :
    (contract env post author ours own key).rely s (s.insertContent row mentions).2 := by
  unfold Db.insertContent
  split
  · exact (contract env post author ours own key).refl s
  · refine ⟨⟨id, fun ⟨c, hc, hid⟩ => .inl ⟨c, List.mem_append_left _ hc, hid⟩, fun _ => id⟩,
      fun hknown => ⟨fun c hc hid => ?_, hknown.signed, hknown.owned, hknown.allowed⟩⟩
    rcases List.mem_append.mp hc with hc | hc
    · exact hknown.wrote c hc hid
    · obtain rfl := List.mem_singleton.mp hc
      exact hrow hid

theorem rely_update (id : Bytes) (message : Text) (time : ℤ) :
    (contract env post author ours own key).rely s (s.updateContent id message time).2 := by
  have hsame (c : Content) :
      (if Db.editApplies id time c then
        { c with base64EncodedMessage := message, editedAt := some time } else c).transactionId =
          c.transactionId ∧
      (if Db.editApplies id time c then
        { c with base64EncodedMessage := message, editedAt := some time } else c).senderPubkey =
          c.senderPubkey := by
    split <;> exact ⟨rfl, rfl⟩
  refine ⟨⟨fun h => h, fun ⟨c, hc, hid⟩ => .inl ⟨_, List.mem_map_of_mem hc, ?_⟩, fun _ h => h⟩,
    fun hknown => ⟨fun c hc hid => ?_, hknown.signed, hknown.owned, hknown.allowed⟩⟩
  · rw [(hsame c).1, hid]
  · obtain ⟨c₀, hc₀, rfl⟩ := List.mem_map.mp hc
    rw [(hsame c₀).2]
    exact hknown.wrote c₀ hc₀ ((hsame c₀).1 ▸ hid)

theorem hasTombstone_insert (row : Deletion) (db : Db) (post author : Bytes) :
    (db.insertTombstone row).hasTombstone post author = true ↔
      db.hasTombstone post author = true ∨ row.postId = post ∧ row.senderPubkey = author := by
  unfold Db.insertTombstone
  split
  · next h =>
    refine ⟨.inl, fun hor => hor.elim id fun hrow => ?_⟩
    rw [← hrow.1, ← hrow.2]
    exact h
  · simp [Db.hasTombstone]

theorem rely_tombstone {row : Deletion} (hours : ours transaction)
    (hdeletes : Deletes env row.postId row.senderPubkey transaction) :
    (contract env post author ours own key).rely s (s.insertTombstone row) := by
  have hsame : core (s.insertTombstone row) =
      (s.contents, (s.insertTombstone row).deleteTombstones, s.usedSignatures,
        s.kapostsDenylist) := by
    unfold core Db.insertTombstone
    split <;> rfl
  simp only [core, Prod.mk.injEq, true_and] at hsame
  obtain ⟨hcontents, hused, hdeny⟩ := hsame
  refine ⟨⟨fun h => (hasTombstone_insert row s post author).mpr (.inl h), fun h => .inl ?_,
    fun first h => ?_⟩, fun hknown => ⟨hcontents ▸ hknown.wrote, fun h => ?_, fun first h => ?_, ?_⟩⟩
  · rw [Stands, hcontents]
    exact h
  · rw [Db.usedBy, hused]
    exact h
  · rcases (hasTombstone_insert row s post author).mp h with h | ⟨rfl, rfl⟩
    · exact hknown.signed h
    · exact ⟨transaction, hours, hdeletes⟩
  · rw [Db.usedBy, hused] at h
    exact hknown.owned first h
  · rw [Db.denies, hdeny]
    exact hknown.allowed

/-- The statements that write what the contract speaks of. -/
inductive Changes (env : Env) (transaction : Transaction) : (Db → Db) → Prop
  | used {signature : Bytes} (h : transaction.signature env = some signature) :
      Changes env transaction fun db => (db.insertUsed signature transaction.transactionId).2
  | content {action : KAction} {row : Content} (mentions : List Mention)
      (hacts : Acts env transaction action row.senderPubkey)
      (hkind : contentKind action.kind = true)
      (hid : row.transactionId = transaction.transactionId) :
      Changes env transaction fun db => (db.insertContent row mentions).2
  | update (id : Bytes) (message : Text) (time : ℤ) :
      Changes env transaction fun db => (db.updateContent id message time).2
  | tombstone {row : Deletion} (h : Deletes env row.postId row.senderPubkey transaction) :
      Changes env transaction (Db.insertTombstone row)

theorem runs_core {ev : Sql} {write : Db → Db} (h : Runs env transaction ev write)
    (hproper : Proper env post author transaction) :
    (∀ s, core (write s) = core s) ∨ Changes env transaction write := by
  cases h with
  | read => exact .inl fun _ => rfl
  | used hsig => exact .inr (.used hsig)
  | content hacts hkind hid hmentions => exact .inr (.content _ hacts hkind hid)
  | poll row =>
    refine .inl fun s => ?_
    unfold Db.insertPoll
    split <;> rfl
  | pollMention => exact .inl fun _ => rfl
  | edit row =>
    refine .inl fun s => ?_
    unfold Db.insertEdit
    split <;> rfl
  | update => exact .inr (.update _ _ _)
  | editMention row =>
    refine .inl fun s => ?_
    unfold Db.insertEditMention
    split <;> rfl
  | tombstone hacts hpost => exact .inr (.tombstone ⟨_, hacts, hpost⟩)
  | delete row =>
    refine .inl fun s => ?_
    unfold Db.insertDelete
    split <;> rfl
  | unquote hacts => exact absurd rfl (hproper.kind _ hacts.1).1
  | unvote => exact .inl fun _ => rfl
  | vote =>
    refine .inl fun s => ?_
    unfold Db.commitVote
    dsimp only
    split <;> rfl
  | pollVote row =>
    refine .inl fun s => ?_
    unfold Db.insertPollVote
    split <;> rfl
  | tip row =>
    refine .inl fun s => ?_
    unfold Db.insertTip
    split <;> rfl
  | newest =>
    refine .inl fun s => ?_
    dsimp only
    unfold Db.upsertRelationLast
    split
    · rfl
    · split <;> rfl
  | relate kind row =>
    refine .inl fun s => ?_
    unfold Db.insertRelation
    split <;> rfl
  | unrelate => exact .inl fun _ => rfl
  | deny haction => exact absurd rfl (hproper.kind _ haction).2
  | purge haction => exact absurd rfl (hproper.kind _ haction).2
  | allow haction => exact absurd rfl (hproper.kind _ haction).2
  | broadcast row seen replaced =>
    refine .inl fun s => ?_
    have hrecord : core (s.recordBroadcastSignature row.senderSignature row.transactionId) =
        core s := by
      unfold Db.recordBroadcastSignature
      split <;> rfl
    cases replaced <;> exact hrecord

/-- The statements of a transaction keep to the contract. -/
theorem runs_rely {ev : Sql} {write : Db → Db} (h : Runs env transaction ev write)
    (hours : ours transaction) (hproper : Proper env post author transaction)
    (hown : transaction.signature env = some own.1 → transaction.transactionId = own.2) :
    (contract env post author ours own key).rely s (write s) := by
  rcases runs_core h hproper with hsame | hchanges
  · exact rely_of_core (hsame s)
  · cases hchanges with
    | used hsig => exact rely_used hsig hown
    | content mentions hacts hkind hid =>
      refine rely_content fun hpost => ?_
      obtain ⟨haction, text, htext, -, hdecode⟩ := hacts
      have hauthor := (hproper.content (hid ▸ hpost) _ haction).2 text htext
      exact Option.some.inj (hdecode.symm.trans hauthor)
    | update => exact rely_update _ _ _
    | tombstone hdeletes => exact rely_tombstone hours hdeletes

theorem stands_hardDelete {target signer : Bytes}
    (hknown : Known env post author ours own key s) :
    Stands post (s.hardDeleteContent target signer) ↔
      Stands post s ∧ ¬ (target = post ∧ signer = author) := by
  constructor
  · rintro ⟨c, hc, hid⟩
    obtain ⟨hc, hkept⟩ := List.mem_filter.mp hc
    refine ⟨⟨c, hc, hid⟩, fun ⟨htarget, hsigner⟩ => ?_⟩
    exact of_decide_eq_true hkept ⟨hid.trans htarget.symm, (hknown.wrote c hc hid).trans hsigner.symm⟩
  · rintro ⟨⟨c, hc, hid⟩, hother⟩
    refine ⟨c, List.mem_filter.mpr ⟨hc, ?_⟩, hid⟩
    rw [hid, hknown.wrote c hc hid]
    exact decide_eq_true fun hc => hother ⟨hc.1.symm, hc.2.symm⟩

/-- A content is removed only under a tombstone of its author. -/
theorem rely_hardDelete {target signer : Bytes} (hknown : Known env post author ours own key s)
    (htomb : target = post → signer = author → s.hasTombstone post author = true) :
    (contract env post author ours own key).rely s (s.hardDeleteContent target signer) := by
  refine ⟨⟨id, fun h => ?_, fun _ => id⟩, fun hknown => ⟨fun c hc => ?_, hknown.signed,
    hknown.owned, hknown.allowed⟩⟩
  · by_cases hboth : target = post ∧ signer = author
    · exact .inr (htomb hboth.1 hboth.2)
    · exact .inl ((stands_hardDelete hknown).mpr ⟨h, hboth⟩)
  · exact hknown.wrote c (List.mem_of_mem_filter hc)

end

/-! ## Every job keeps to the contract -/

section
variable {may : Sql → Db → Prop} {transaction : Transaction} {s : Db}

/-- A program of the transaction's statements. -/
theorem within_safe {α : Type} {p : Worker α} (hp : Within env transaction p)
    (hours : ours transaction) (hproper : Proper env post author transaction)
    (hown : transaction.signature env = some own.1 → transaction.transactionId = own.2) :
    (contract env post author ours own key).Safe may transaction (fun _ _ => True) p s :=
  .of_all hp (fun _ _ h _ _ _ => ⟨runs_rely h hours hproper hown, trivial⟩) fun _ _ => trivial

theorem done_safe (s : Db) : (contract env post author ours own key).Safe may transaction
    (fun _ _ => True) (done () : Worker Unit) s := fun _ _ _ => trivial

theorem rely_delete (row : Deletion) :
    (contract env post author ours own key).rely s (s.insertDelete row) := by
  refine rely_of_core ?_
  unfold Db.insertDelete
  split <;> rfl

/-- A delete leaves its tombstone. -/
theorem applyDelete_safe (row : Deletion) (hours : ours transaction)
    (hdeletes : Deletes env row.postId row.senderPubkey transaction) :
    (contract env post author ours own key).Safe may transaction
      (fun _ t => row.postId = post → row.senderPubkey = author → t.hasTombstone post author = true)
      (applyDelete row) s := by
  refine .execute_bind fun t hst hinv _ => ⟨rely_tombstone hours hdeletes, trivial, ?_⟩
  have htomb : row.postId = post → row.senderPubkey = author →
      (t.insertTombstone row).hasTombstone post author = true := fun hpost hauthor =>
    (hasTombstone_insert row t post author).mpr (.inr ⟨hpost, hauthor⟩)
  have hstays : ∀ u v, (contract env post author ours own key).rely u v →
      (row.postId = post → row.senderPubkey = author → u.hasTombstone post author = true) →
      row.postId = post → row.senderPubkey = author → v.hasTombstone post author = true :=
    fun u v huv h hpost hauthor => huv.1.tombstone (h hpost hauthor)
  refine Contract.Safe.hold ?_ htomb hstays
  refine .query_bind fun u htu hinvu _ => ⟨trivial, ?_⟩
  split
  · split
    · exact done_safe u
    · refine .execute_bind fun v huv _ _ => ⟨rely_delete row, trivial, fun w hvw hinvw _ => ?_⟩
      have hw := hstays _ _ hvw <| hstays _ _ (rely_delete (s := v) row) <| hstays _ _ huv <|
        hstays _ _ htu htomb
      exact ⟨rely_hardDelete hinvw hw, trivial, done_safe _⟩
  · exact done_safe u

/-- `mine` says that the transaction is the delete in question. -/
theorem delete_safe {k : KDelete} {mine : Prop} (haction : transaction.action env = some (.delete k))
    (hours : ours transaction)
    (hown : transaction.signature env = some own.1 → transaction.transactionId = own.2)
    (hmine : mine → Acts env transaction (.delete k) author ∧ hexDecode k.postId = some post ∧
      transaction.signature env = some own.1 ∧ k.senderPubkey = key) :
    (contract env post author ours own key).Safe may transaction
      (fun _ t => mine → t.hasTombstone post author = true)
      (processKTransaction env outputs transaction) s := by
  have hdone (t : Db) (h : ¬ mine) : (contract env post author ours own key).Safe may transaction
      (fun _ t => mine → t.hasTombstone post author = true) (done () : Worker Unit) t :=
    fun _ _ _ hm => absurd hm h
  unfold processKTransaction
  simp only [haction]
  refine .query_bind fun t _ hinv _ => ⟨trivial, ?_⟩
  split
  · next hdenied =>
    refine hdone t fun hm => ?_
    rw [(hmine hm).2.2.2, hinv.allowed] at hdenied
    cases hdenied
  · by_cases hverify : verifyKaspaSignature env (KAction.delete k).signingString
        k.senderSignature k.senderPubkey = true
    · have hcheck : (contract env post author ours own key).Safe may transaction
          (fun b _ => mine → b = true) (checkSignature env (KAction.delete k).signingString
            k.senderSignature k.senderPubkey transaction) t := by
        exact check_mine haction hverify (fun hm => (hmine hm).2.2.1) hown (fun _ _ => trivial)
          (fun _ hu => hu.owned) (fun _ _ first huv => huv.1.used first) fun sig u hsig _ =>
            rely_used hsig hown
      refine hcheck.bind fun fresh u _ hfresh => ?_
      split
      · next hstale =>
        refine hdone u fun hm => ?_
        rw [hfresh hm] at hstale
        cases hstale
      · split
        · next sender hsender =>
          have hacts : Acts env transaction (.delete k) sender :=
            ⟨haction, _, rfl, hverify, hsender⟩
          split
          · next target htarget =>
            refine (applyDelete_safe ⟨transaction.transactionId, transaction.time, sender, target⟩
              hours ⟨k, hacts, htarget⟩).imp fun _ t _ h hm => ?_
            obtain ⟨⟨-, text, htext, -, hdecode⟩, hpost, -⟩ := hmine hm
            obtain rfl := Option.some.inj htext
            exact h (Option.some.inj (htarget.symm.trans hpost))
              (Option.some.inj (hsender.symm.trans hdecode))
          · next hnone =>
            refine hdone u fun hm => ?_
            exact hnone _ (hmine hm).2.1
        · next hnone =>
          refine hdone u fun hm => ?_
          obtain ⟨⟨-, text, htext, -, hdecode⟩, -⟩ := hmine hm
          obtain rfl := Option.some.inj htext
          exact hnone _ hdecode
    · have hstop : processAction env outputs transaction (.delete k) = done () := by
        show processKDeleteInDatabase env transaction k = done ()
        unfold processKDeleteInDatabase
        rw [check_refused hverify]
        rfl
      rw [hstop]
      refine hdone t fun hm => ?_
      obtain ⟨⟨-, text, htext, hv, -⟩, -⟩ := hmine hm
      obtain rfl := Option.some.inj htext
      exact hverify hv

theorem drop_safe (text : Text) :
    (contract env post author ours own key).Safe may transaction (fun _ _ => True)
      (dropIfDeleted transaction text) s := by
  unfold dropIfDeleted deletedByAuthor
  split
  · exact done_safe s
  · next signer hsigner =>
    refine .query_bind fun t _ _ _ => ⟨trivial, ?_⟩
    split
    · next htomb =>
      simp only [hsigner]
      refine fun u htu hinvu _ => ⟨rely_hardDelete hinvu fun hpost hauthor => ?_, trivial, done_safe _⟩
      subst hpost hauthor
      exact htu.1.tombstone htomb
    · exact done_safe t

theorem saves_safe {text : Text} {save : Worker Unit} (hsave : Within env transaction save)
    (hours : ours transaction) (hproper : Proper env post author transaction)
    (hown : transaction.signature env = some own.1 → transaction.transactionId = own.2) :
    (contract env post author ours own key).Safe may transaction (fun _ _ => True)
      (saveUnlessDeleted transaction text save) s := by
  refine (within_safe (within_deletedByAuthor text) hours hproper hown).bind fun deleted t _ _ => ?_
  split
  · exact done_safe t
  · exact (within_safe hsave hours hproper hown).bind fun _ u _ _ =>
      drop_safe text

/-- Every transaction of a run keeps to the contract, and the delete in question leaves its
tombstone. -/
theorem process_safe {mine : Prop} (hours : ours transaction)
    (hproper : Proper env post author transaction)
    (hown : transaction.signature env = some own.1 → transaction.transactionId = own.2)
    (hmine : mine → ∃ k, Acts env transaction (.delete k) author ∧ hexDecode k.postId = some post ∧
      transaction.signature env = some own.1 ∧ k.senderPubkey = key) :
    (contract env post author ours own key).Safe may transaction
      (fun _ t => mine → t.hasTombstone post author = true)
      (processKTransaction env outputs transaction) s := by
  cases haction : transaction.action env with
  | none =>
    unfold processKTransaction
    simp only [haction]
    intro t _ _ hm
    obtain ⟨k, hacts, -⟩ := hmine hm
    have hnone := haction.symm.trans hacts.1
    cases hnone
  | some action =>
    by_cases hdelete : ∃ k, action = .delete k
    · obtain ⟨k, rfl⟩ := hdelete
      refine delete_safe haction hours hown fun hm => ?_
      obtain ⟨k', hacts, hrest⟩ := hmine hm
      obtain rfl : k' = k := by
        have heq := Option.some.inj (hacts.1.symm.trans haction)
        injection heq
      exact ⟨hacts, hrest⟩
    · have hother : ¬ mine := fun hm => by
        obtain ⟨k, hacts, -⟩ := hmine hm
        exact hdelete ⟨k, Option.some.inj (haction.symm.trans hacts.1)⟩
      have hsafe : (contract env post author ours own key).Safe may transaction (fun _ _ => True)
          (processKTransaction env outputs transaction) s := by
        unfold processKTransaction
        simp only [haction]
        refine (within_safe (within_denied action) hours hproper hown).bind fun denied t _ _ => ?_
        split
        · exact done_safe t
        · cases hkind : contentKind action.kind with
          | true =>
            obtain ⟨text, save, -, hsave, heq⟩ := action_saves outputs haction hkind
            rw [heq]
            exact saves_safe hsave hours hproper hown
          | false =>
            refine within_safe (within_action haction hkind fun hk => hdelete ?_) hours hproper hown
            cases action <;> first | exact ⟨_, rfl⟩ | cases hk
      exact hsafe.imp fun _ _ _ _ hm => absurd hm hother

end

/-! ## The two debts -/

/-- The content does not stand under its author's tombstone. -/
def Unmarked (post author : Bytes) (db : Db) : Prop :=
  ¬ (db.hasTombstone post author = true ∧ Stands post db)

/-- Nothing is left on a content that is not there. -/
def Tidy (post : Bytes) (db : Db) : Prop := Stands post db ∨ Bare post db

section
variable {transaction : Transaction} {s t : Db}

theorem Unmarked.of_le (h : Unmarked post author s)
    (htomb : t.hasTombstone post author = s.hasTombstone post author)
    (hstands : Stands post t → Stands post s) : Unmarked post author t :=
  fun ⟨ht, hs⟩ => h ⟨htomb ▸ ht, hstands hs⟩

theorem Unmarked.of_core (h : Unmarked post author s) (hcore : core t = core s) :
    Unmarked post author t := by
  obtain ⟨hcontents, htombs, -⟩ : t.contents = s.contents ∧
      t.deleteTombstones = s.deleteTombstones ∧ _ := by simpa [core] using hcore
  exact h.of_le (by simp [Db.hasTombstone, htombs]) fun hs => by rw [Stands, ← hcontents]; exact hs

theorem stands_content {row : Content} {mentions : List Mention} (hrow : row.transactionId ≠ post) :
    Stands post (s.insertContent row mentions).2 ↔ Stands post s := by
  unfold Db.insertContent
  split
  · rfl
  · simp [Stands, or_and_right, exists_or, hrow]

theorem stands_update (id : Bytes) (message : Text) (time : ℤ) :
    Stands post (s.updateContent id message time).2 ↔ Stands post s := by
  have hsame (c : Content) :
      (if Db.editApplies id time c then
        { c with base64EncodedMessage := message, editedAt := some time } else c).transactionId =
          c.transactionId := by
    split <;> rfl
  simp [Stands, Db.updateContent, hsame]

/-- Only a save of the content or a delete can leave it standing under its tombstone. -/
theorem runs_unmarked {ev : Sql} {write : Db → Db} (h : Runs env transaction ev write)
    (hproper : Proper env post author transaction) (hid : transaction.transactionId ≠ post)
    (hdelete : ¬ Deletes env post author transaction) (hs : Unmarked post author s) :
    Unmarked post author (write s) := by
  rcases runs_core h hproper with hsame | hchanges
  · exact hs.of_core (hsame s)
  · cases hchanges with
    | @used signature =>
      have hsame := tables_insertUsed signature transaction.transactionId s
      have htomb := congrArg (fun db => Db.hasTombstone db post author) hsame
      have hstands := congrArg (fun db => Stands post db) hsame
      exact hs.of_le htomb hstands.mp
    | content mentions hacts hkind hrow =>
      refine hs.of_le ?_ (stands_content (hrow ▸ hid)).mp
      dsimp only
      unfold Db.insertContent
      split <;> rfl
    | update => exact hs.of_le rfl (stands_update _ _ _).mp
    | @tombstone row hdeletes =>
      rintro ⟨htomb, hstands⟩
      rcases (hasTombstone_insert row s post author).mp htomb with htomb | ⟨rfl, rfl⟩
      · refine hs ⟨htomb, ?_⟩
        unfold Db.insertTombstone at hstands
        split at hstands <;> exact hstands
      · exact hdelete hdeletes

theorem Tidy.of_le (h : Tidy post s) (hstands : Stands post s → Stands post t)
    (hvotes : t.votes ⊆ s.votes) (hmentions : t.mentions ⊆ s.mentions) : Tidy post t :=
  h.imp hstands fun hbare => ⟨fun v hv => hbare.1 v (hvotes hv), fun m hm =>
    hbare.2 m (hmentions hm)⟩

/-- Votes and mentions come to the content while it stands; only a poll adds mentions later. -/
theorem runs_tidy {ev : Sql} {write : Db → Db} (h : Runs env transaction ev write)
    (hproper : Proper env post author transaction) (hmay : OnStanding post ev s)
    (hpoll : transaction.transactionId = post → ∀ k, transaction.action env ≠ some (.poll k))
    (hs : Tidy post s) : Tidy post (write s) := by
  have hnot {action : KAction} (haction : transaction.action env = some action)
      (hkind : contentKind action.kind = false) : transaction.transactionId ≠ post := fun hid => by
    rw [(hproper.content hid action haction).1] at hkind
    cases hkind
  cases h with
  | read => exact hs
  | @used signature =>
    have hsame := tables_insertUsed signature transaction.transactionId s
    have htidy := congrArg (fun db => Tidy post db) hsame
    exact htidy.mpr hs
  | @content action row mentions hacts hkind hid hmentions =>
    dsimp only
    unfold Db.insertContent
    split
    · exact hs
    · by_cases hpost : row.transactionId = post
      · exact .inl ⟨row, List.mem_append_right _ (List.mem_singleton_self row), hpost⟩
      · refine hs.imp (fun ⟨c, hc, hc'⟩ => ⟨c, List.mem_append_left _ hc, hc'⟩) fun hbare =>
          ⟨hbare.1, fun m hm => ?_⟩
        rcases List.mem_append.mp hm with hm | hm
        · exact hbare.2 m hm
        · rw [hmentions m hm, ← hid]
          exact hpost
  | poll row =>
    unfold Db.insertPoll
    split <;> exact hs
  | pollMention row haction hid =>
    refine hs.imp id fun hbare => ⟨hbare.1, fun m hm => ?_⟩
    rcases List.mem_append.mp hm with hm | hm
    · exact hbare.2 m hm
    · obtain rfl := List.mem_singleton.mp hm
      exact fun hpost => hpoll (hid.symm.trans hpost) _ haction
  | edit row =>
    unfold Db.insertEdit
    split <;> exact hs
  | update => exact hs.of_le (stands_update _ _ _).mpr (fun _ h => h) fun _ h => h
  | editMention row =>
    unfold Db.insertEditMention
    split
    · exact hs
    · by_cases hpost : row.contentId = post
      · exact .inl (hmay (decide_eq_true hpost))
      · refine hs.imp id fun hbare => ⟨hbare.1, fun m hm => ?_⟩
        rcases List.mem_append.mp hm with hm | hm
        · exact hbare.2 m hm
        · exact List.mem_singleton.mp hm ▸ hpost
  | tombstone =>
    unfold Db.insertTombstone
    split <;> exact hs
  | delete row =>
    unfold Db.insertDelete
    split <;> exact hs
  | unquote hacts => exact absurd rfl (hproper.kind _ hacts.1).1
  | unvote =>
    exact hs.of_le id (List.filter_subset_self _) (List.filter_subset_self _)
  | @vote k row mention hacts hid hmention replaced =>
    unfold Db.commitVote
    dsimp only
    split
    · exact hs.of_le id (List.filter_subset_self _) (List.filter_subset_self _)
    · by_cases hpost : row.postId = post
      · exact .inl (hmay (decide_eq_true hpost))
      · refine hs.imp id fun hbare => ⟨fun v hv => ?_, fun m hm => ?_⟩
        · rcases List.mem_append.mp hv with hv | hv
          · exact hbare.1 v (List.mem_of_mem_filter hv)
          · exact List.mem_singleton.mp hv ▸ hpost
        · rcases List.mem_append.mp hm with hm | hm
          · exact hbare.2 m (List.mem_of_mem_filter hm)
          · rw [List.mem_singleton.mp hm, hmention]
            exact hnot hacts.1 rfl
  | pollVote row =>
    unfold Db.insertPollVote
    split <;> exact hs
  | tip row haction hmention =>
    unfold Db.insertTip
    split
    · exact hs
    · refine hs.imp id fun hbare => ⟨hbare.1, fun m hm => ?_⟩
      rcases List.mem_append.mp hm with hm | hm
      · exact hbare.2 m hm
      · rw [List.mem_singleton.mp hm, hmention]
        exact hnot haction rfl
  | newest =>
    dsimp only
    unfold Db.upsertRelationLast
    split
    · exact hs
    · split <;> exact hs
  | relate kind row =>
    unfold Db.insertRelation
    split <;> exact hs
  | unrelate => exact hs
  | deny haction => exact absurd rfl (hproper.kind _ haction).2
  | purge haction => exact absurd rfl (hproper.kind _ haction).2
  | allow haction => exact absurd rfl (hproper.kind _ haction).2
  | broadcast row seen replaced =>
    have hrecord : Tidy post (s.recordBroadcastSignature row.senderSignature row.transactionId) := by
      unfold Db.recordBroadcastSignature
      split <;> exact hs
    cases replaced <;> exact hrecord

end

section
variable {s : Db}

theorem unmarked_hardDelete {target signer : Bytes} (h : Unmarked post author s) :
    Unmarked post author (s.hardDeleteContent target signer) :=
  h.of_le rfl fun ⟨c, hc, hid⟩ => ⟨c, List.mem_of_mem_filter hc, hid⟩

theorem bare_hardDelete (signer : Bytes) : Bare post (s.hardDeleteContent post signer) :=
  ⟨fun _ hv => of_decide_eq_true (List.mem_filter.mp hv).2,
    fun _ hm => of_decide_eq_true (List.mem_filter.mp hm).2⟩

theorem tidy_hardDelete {target signer : Bytes} (hknown : Known env post author ours own key s)
    (h : Tidy post s) : Tidy post (s.hardDeleteContent target signer) := by
  rcases eq_or_ne target post with rfl | hne
  · exact .inr (bare_hardDelete signer)
  · exact h.of_le (fun hs => (stands_hardDelete hknown).mpr ⟨hs, fun hboth => hne hboth.1⟩)
      (List.filter_subset_self _) (List.filter_subset_self _)

end

/-! ## Every job settles its debts -/

section
variable {may : Sql → Db → Prop} {transaction : Transaction} {s : Db}

/-- A content that finds its author's tombstone after its save drops itself. -/
theorem drop_owes_unmarked {text : Text} (hid : transaction.transactionId = post)
    (hauthor : hexDecode text = some author) :
    (contract env post author ours own key).Owes may (Unmarked post author)
      (dropIfDeleted transaction text) s := by
  unfold dropIfDeleted deletedByAuthor
  simp only [hauthor, hid]
  refine .query_bind fun t _ _ _ => ?_
  split
  · exact .inr (.execute fun u _ hinv _ h => ((stands_hardDelete hinv).mp h.2).2 ⟨rfl, rfl⟩)
  · next htomb => exact .inl fun h => htomb h.1

theorem drop_owes_tidy {text : Text} (hid : transaction.transactionId = post)
    (hauthor : hexDecode text = some author)
    (hs : Stands post s ∨ s.hasTombstone post author = true) :
    (contract env post author ours own key).Owes may (Tidy post)
      (dropIfDeleted transaction text) s := by
  unfold dropIfDeleted deletedByAuthor
  simp only [hauthor, hid]
  refine .query_bind fun t hst _ _ => ?_
  split
  · exact .inr (.execute fun u _ _ _ => .inr (bare_hardDelete author))
  · next htomb =>
    have ht := hs.elim hst.1.stands fun h => .inr (hst.1.tombstone h)
    exact .inl (.inl (ht.resolve_right htomb))

variable {clear : Db → Prop}

/-- The look for a tombstone after a save ends neither condition. -/
theorem drop_careful {text : Text} (hclear : ∀ t target signer,
      Known env post author ours own key t → clear t → clear (t.hardDeleteContent target signer)) :
    (contract env post author ours own key).Careful may clear (dropIfDeleted transaction text) s := by
  unfold dropIfDeleted deletedByAuthor
  split
  · trivial
  · next signer hsigner =>
    simp only [hsigner]
    refine .query_bind fun t _ _ _ => ?_
    split
    · exact .execute fun u _ hinv _ => hclear u _ _ hinv
    · trivial

theorem unmarked_drop (t : Db) (target signer : Bytes)
    (_ : Known env post author ours own key t) (h : Unmarked post author t) :
    Unmarked post author (t.hardDeleteContent target signer) := unmarked_hardDelete h

theorem tidy_drop (t : Db) (target signer : Bytes) (hknown : Known env post author ours own key t)
    (h : Tidy post t) : Tidy post (t.hardDeleteContent target signer) := tidy_hardDelete hknown h

theorem inserted_stands {row : Content} {mentions : List Mention}
    (h : (s.insertContent row mentions).1 = true) :
    Stands row.transactionId (s.insertContent row mentions).2 := by
  unfold Db.insertContent at h ⊢
  split
  · next hused => rw [if_pos hused] at h; cases h
  · exact ⟨row, List.mem_append_right _ (List.mem_singleton_self row), rfl⟩

/-- A poll adds its mentions after its content, and looks for its tombstone after that. -/
theorem storePoll_careful {k : KPoll} {row : Content} {poll : Poll} {keys : List Text} {text : Text}
    (haction : transaction.action env = some (.poll k)) (hours : ours transaction)
    (hproper : Proper env post author transaction)
    (hown : transaction.signature env = some own.1 → transaction.transactionId = own.2)
    (hid : transaction.transactionId = post) (hauthor : hexDecode text = some author)
    (hrow : row.transactionId = transaction.transactionId) :
    (contract env post author ours own key).Careful may (Tidy post)
      (storePoll row poll keys >>= fun _ => dropIfDeleted transaction text) s := by
  rw [storePoll, bind_assoc]
  refine .stmt_bind fun t _ _ _ => ⟨fun h => .inl ?_, ?_⟩
  · unfold Db.insertContent
    split
    · exact h
    · exact .inl ⟨row, List.mem_append_right _ (List.mem_singleton_self row), hrow.trans hid⟩
  · cases hin : (t.insertContent row []).1 with
    | false => exact drop_careful tidy_drop
    | true =>
      have hstands : Stands post (t.insertContent row []).2 := hrow.trans hid ▸ inserted_stands hin
      have hrest : Within env transaction (execute (.pollInsert row.transactionId)
          (Db.insertPoll poll) >>= fun _ => insertPollMentions row keys) :=
        .execute_bind (.poll _) (within_pollMentions haction hrow _)
      refine .bind_owes (within_safe hrest hours hproper hown) (fun _ u htu _ => ?_) fun _ _ =>
        drop_careful tidy_drop
      exact drop_owes_tidy hid hauthor (htu.1.stands hstands)

theorem poll_careful {k : KPoll} {text : Text} (haction : transaction.action env = some (.poll k))
    (hours : ours transaction) (hproper : Proper env post author transaction)
    (hown : transaction.signature env = some own.1 → transaction.transactionId = own.2)
    (hid : transaction.transactionId = post) (hauthor : hexDecode text = some author) :
    (contract env post author ours own key).Careful (OnStanding post) (Tidy post)
      (processKPollInDatabase env transaction k >>= fun _ => dropIfDeleted transaction text) s := by
  have hdrop (t : Db) : (contract env post author ours own key).Careful (OnStanding post) (Tidy post)
      (dropIfDeleted transaction text) t := drop_careful tidy_drop
  rw [processKPollInDatabase, bind_assoc]
  have hcheck := (idle_check env transaction (KAction.poll k).signingString k.senderSignature
    k.senderPubkey).all
  refine .bind (.of_all hcheck fun _ write h t _ _ ht => ?_) fun fresh t => ?_
  · have hsame := congrArg (fun db => Tidy post db) (h.2 t)
    exact hsame.mpr ht
  · split
    · exact hdrop t
    · split
      · exact hdrop t
      · split
        · exact hdrop t
        · split
          · exact hdrop t
          · split
            · next row hrow =>
              exact storePoll_careful haction hours hproper hown hid hauthor (contentRow_eq hrow).1
            · exact hdrop t

theorem reads_careful {α : Type} {p : Worker α} (hp : Reads p) :
    (contract env post author ours own key).Careful may clear p s :=
  .of_all hp fun _ write h t _ _ ht => by rw [h t]; exact ht

theorem save_careful {text : Text} {save : Worker Unit}
    (hsave : ∀ t, (contract env post author ours own key).Careful may clear
      (save >>= fun _ => dropIfDeleted transaction text) t) :
    (contract env post author ours own key).Careful may clear
      (saveUnlessDeleted transaction text save) s := by
  refine (reads_careful (reads_deletedByAuthor text)).bind fun deleted t => ?_
  split
  · trivial
  · exact hsave t

theorem content_unmarked {action : KAction} (haction : transaction.action env = some action)
    (hkind : contentKind action.kind = true) (hours : ours transaction)
    (hproper : Proper env post author transaction)
    (hown : transaction.signature env = some own.1 → transaction.transactionId = own.2) :
    (contract env post author ours own key).Careful may (Unmarked post author)
      (processAction env outputs transaction action) s := by
  obtain ⟨text, save, htext, hsave, heq⟩ := action_saves outputs haction hkind
  rw [heq]
  refine save_careful fun t => ?_
  by_cases hid : transaction.transactionId = post
  · have hauthor := (hproper.content hid action haction).2 text htext
    exact .bind_owes (within_safe hsave hours hproper hown)
      (fun _ _ _ _ => drop_owes_unmarked hid hauthor) fun _ _ => drop_careful unmarked_drop
  · refine .bind (.of_all hsave fun _ _ hruns u _ _ hu => ?_) fun _ _ => drop_careful unmarked_drop
    refine runs_unmarked hruns hproper hid (fun ⟨k, hacts, _⟩ => ?_) hu
    obtain rfl := Option.some.inj (haction.symm.trans hacts.1)
    cases hkind

theorem content_tidy {action : KAction} (haction : transaction.action env = some action)
    (hkind : contentKind action.kind = true) (hours : ours transaction)
    (hproper : Proper env post author transaction)
    (hown : transaction.signature env = some own.1 → transaction.transactionId = own.2) :
    (contract env post author ours own key).Careful (OnStanding post) (Tidy post)
      (processAction env outputs transaction action) s := by
  by_cases hpoll : transaction.transactionId = post ∧ ∃ k, action = .poll k
  · obtain ⟨hid, k, rfl⟩ := hpoll
    have hauthor := (hproper.content hid _ haction).2 k.senderPubkey rfl
    exact save_careful fun t => poll_careful haction hours hproper hown hid hauthor
  · obtain ⟨text, save, htext, hsave, heq⟩ := action_saves outputs haction hkind
    rw [heq]
    refine save_careful fun t => .bind (.of_all hsave fun _ _ hruns u _ hmay hu => ?_) fun _ _ =>
      drop_careful tidy_drop
    refine runs_tidy hruns hproper hmay (fun hid k hk => hpoll ⟨hid, k, ?_⟩) hu
    exact Option.some.inj (haction.symm.trans hk)

/-! ## Deletes -/

theorem content_none {db : Db} {id : Bytes} (h : db.content id = none) : ¬ Stands id db := by
  rintro ⟨c, hc, hid⟩
  exact absurd hid (by simpa using List.find?_eq_none.mp h c hc)

theorem content_some {db : Db} {id : Bytes} {c : Content} (h : db.content id = some c) :
    c ∈ db.contents ∧ c.transactionId = id :=
  ⟨List.mem_of_find?_eq_some h, by simpa using List.find?_some h⟩

theorem stands_tombstone (row : Deletion) : Stands post (s.insertTombstone row) ↔ Stands post s := by
  unfold Db.insertTombstone
  split <;> rfl

/-- A delete that finds the content after its tombstone removes it. -/
theorem applyDelete_unmarked (row : Deletion) :
    (contract env post author ours own key).Careful may (Unmarked post author)
      (applyDelete row) s := by
  refine .execute_bind fun t _ _ _ => ⟨fun ht => ?_, .query_bind fun u _ _ _ => ?_⟩
  · by_cases hboth : row.postId = post ∧ row.senderPubkey = author
    · obtain ⟨rfl, rfl⟩ := hboth
      refine .inr (.query_bind fun u _ hinv _ => ?_)
      split
      · next original horiginal =>
        obtain ⟨hmem, hid⟩ := content_some horiginal
        split
        · next hne => exact absurd (hinv.wrote _ hmem hid) hne
        · exact .inr (.execute_bind fun v _ _ _ => .inr (.execute fun w _ hinvw _ h =>
            ((stands_hardDelete hinvw).mp h.2).2 ⟨rfl, rfl⟩))
      · next hnone =>
        exact .inl fun h => content_none (Option.eq_none_iff_forall_ne_some.mpr hnone) h.2
    · refine .inl (ht.of_le ?_ (stands_tombstone row).mp)
      rw [Bool.eq_iff_iff, hasTombstone_insert]
      exact or_iff_left hboth
  · split
    · split
      · trivial
      · refine .execute_bind fun v _ _ _ => ⟨fun h => .inl (h.of_core ?_), .execute fun w _ _ _ h =>
          unmarked_hardDelete h⟩
        unfold Db.insertDelete
        split <;> rfl
    · trivial

theorem applyDelete_tidy (row : Deletion) :
    (contract env post author ours own key).Careful may (Tidy post) (applyDelete row) s := by
  refine .execute_bind fun t _ _ _ => ⟨fun ht => .inl ?_, .query_bind fun u _ _ _ => ?_⟩
  · unfold Db.insertTombstone
    split <;> exact ht
  · split
    · split
      · trivial
      · refine .execute_bind fun v _ _ _ => ⟨fun h => .inl ?_, .execute fun w _ hinv _ h =>
          tidy_hardDelete hinv h⟩
        unfold Db.insertDelete
        split <;> exact h
    · trivial

theorem delete_careful {k : KDelete} (hclear : ∀ t u, tables t = tables u → clear t → clear u)
    (hdelete : ∀ row t, (contract env post author ours own key).Careful may clear
      (applyDelete row) t) :
    (contract env post author ours own key).Careful may clear
      (processKDeleteInDatabase env transaction k) s := by
  have hcheck := (idle_check env transaction (KAction.delete k).signingString k.senderSignature
    k.senderPubkey).all
  refine .bind (.of_all hcheck fun _ _ h t _ _ ht => hclear _ _ (h.2 t).symm ht) fun fresh t => ?_
  split
  · trivial
  · split
    · split
      · exact hdelete _ t
      · trivial
    · trivial

/-- A transaction's job is careful when its action is. -/
theorem process_careful (haction : ∀ action, transaction.action env = some action →
      ∀ t, (contract env post author ours own key).Careful may clear
        (processAction env outputs transaction action) t) :
    (contract env post author ours own key).Careful may clear
      (processKTransaction env outputs transaction) s := by
  unfold processKTransaction
  split
  · trivial
  · next action h =>
    refine (reads_careful (reads_denied action)).bind fun denied t => ?_
    split
    · trivial
    · exact haction action h t

theorem process_unmarked (hours : ours transaction) (hproper : Proper env post author transaction)
    (hown : transaction.signature env = some own.1 → transaction.transactionId = own.2) :
    (contract env post author ours own key).Careful may (Unmarked post author)
      (processKTransaction env outputs transaction) s := by
  refine process_careful fun action haction t => ?_
  by_cases hdelete : action.kind = .delete
  · cases action with
    | delete k =>
      refine delete_careful (fun t u htu ht => ?_) fun row t => applyDelete_unmarked row
      exact (congrArg (fun db => Unmarked post author db) htu).mp ht
    | _ => cases hdelete
  · cases hkind : contentKind action.kind with
    | true => exact content_unmarked haction hkind hours hproper hown
    | false =>
      have hid : transaction.transactionId ≠ post := fun hid => by
        rw [(hproper.content hid action haction).1] at hkind
        cases hkind
      refine .of_all (within_action haction hkind hdelete) fun _ _ hruns u _ _ hu =>
        runs_unmarked hruns hproper hid (fun ⟨k, hacts, _⟩ => hdelete ?_) hu
      obtain rfl := Option.some.inj (haction.symm.trans hacts.1)
      rfl

theorem process_tidy (hours : ours transaction) (hproper : Proper env post author transaction)
    (hown : transaction.signature env = some own.1 → transaction.transactionId = own.2) :
    (contract env post author ours own key).Careful (OnStanding post) (Tidy post)
      (processKTransaction env outputs transaction) s := by
  refine process_careful fun action haction t => ?_
  by_cases hdelete : action.kind = .delete
  · cases action with
    | delete k =>
      refine delete_careful (fun t u htu ht => ?_) fun row t => applyDelete_tidy row
      exact (congrArg (fun db => Tidy post db) htu).mp ht
    | _ => cases hdelete
  · cases hkind : contentKind action.kind with
    | true => exact content_tidy haction hkind hours hproper hown
    | false =>
      refine .of_all (within_action haction hkind hdelete) fun _ _ hruns u _ hmay hu =>
        runs_tidy hruns hproper hmay (fun _ k hk => ?_) hu
      obtain rfl := Option.some.inj (haction.symm.trans hk)
      cases hkind

end

/-! ## Every run -/

section
variable {may : Sql → Db → Prop} {s : Db} {k : KDelete} {delete : Transaction}

end

theorem untouched_empty : Untouched post Db.empty where
  gone := ⟨fun ⟨_, hc, _⟩ => absurd hc List.not_mem_nil,
    fun _ hv => absurd hv List.not_mem_nil, fun _ hm => absurd hm List.not_mem_nil⟩
  tombstone _ := rfl

/-! ## A vote left behind -/

def samplePost : Transaction :=
  sample 9 5 ["post".toList, sampleKey '2' '1', sampleSignature 'a', "4oGg".toList, "[]".toList]

def sampleVote : Transaction :=
  sample 3 6 ["vote".toList, sampleKey '2' '2', sampleSignature 'b', "09".toList, "upvote".toList,
    sampleKey '2' '1']

def sampleDelete : Transaction :=
  sample 4 7 ["delete".toList, sampleKey '2' '1', sampleSignature 'c', "09".toList]

/-- The vote has seen the post when the whole delete comes in between. -/
def leftBehind : List (Act Transaction) :=
  [.deliver samplePost, .deliver sampleVote, .deliver sampleDelete] ++
    statements [(0, 7), (1, 6), (2, 8), (1, 1)]

/-- The vote is there before the delete. -/
def inOrder : List (Act Transaction) :=
  [.deliver samplePost, .deliver sampleVote, .deliver sampleDelete] ++
    statements [(0, 7), (1, 7), (2, 8)]

theorem leftBehind_runs : ∃ w, run (processKTransaction sampleEnv noOutputs) (fun _ _ _ => true)
    leftBehind (.start Db.empty) = some w ∧ w.jobs.all (·.2.ended) = true ∧
    w.jobs.map Prod.fst = [samplePost, sampleVote, sampleDelete] ∧
    w.state.votes.any (·.postId = [9]) = true := by
  have h : ((run (processKTransaction sampleEnv noOutputs) (fun _ _ _ => true) leftBehind
      (.start Db.empty)).map fun w => (w.jobs.all (·.2.ended) : Bool) &&
        (decide (w.jobs.map Prod.fst = [samplePost, sampleVote, sampleDelete]) &&
          w.state.votes.any (·.postId = [9]))) = some true := by
    decide +kernel
  obtain ⟨w, hw, hall⟩ := Option.map_eq_some_iff.mp h
  obtain ⟨hended, hrest⟩ := Bool.and_eq_true_iff.mp hall
  obtain ⟨hjobs, hvotes⟩ := Bool.and_eq_true_iff.mp hrest
  exact ⟨w, hw, hended, of_decide_eq_true hjobs, hvotes⟩

theorem inOrder_runs : ∃ w, run (processKTransaction sampleEnv noOutputs)
    (fun _ ev db => decide (OnStanding [9] ev db)) inOrder (.start Db.empty) = some w ∧
    w.jobs.all (·.2.ended) = true ∧
    w.jobs.map Prod.fst = [samplePost, sampleVote, sampleDelete] := by
  have h : ((run (processKTransaction sampleEnv noOutputs)
      (fun _ ev db => decide (OnStanding [9] ev db)) inOrder (.start Db.empty)).map fun w =>
        (w.jobs.all (·.2.ended) : Bool) &&
          decide (w.jobs.map Prod.fst = [samplePost, sampleVote, sampleDelete])) = some true := by
    decide +kernel
  obtain ⟨w, hw, hall⟩ := Option.map_eq_some_iff.mp h
  obtain ⟨hended, hjobs⟩ := Bool.and_eq_true_iff.mp hall
  exact ⟨w, hw, hended, of_decide_eq_true hjobs⟩

def sampleDeletion : KDelete := ⟨sampleKey '2' '1', sampleSignature 'c', "09".toList⟩

theorem sampleDelete_acts :
    Acts sampleEnv sampleDelete (.delete sampleDeletion) (2 :: List.replicate 32 0x11) :=
  ⟨by decide +kernel, _, rfl, by decide +kernel, by decide +kernel⟩

/-- The action of each sample transaction. -/
theorem sample_actions : ∀ transaction ∈ [samplePost, sampleVote, sampleDelete],
    (transaction.action sampleEnv).all fun action => action.kind ≠ .unquote ∧ action.kind ≠ .block ∧
      (transaction.transactionId = [9] → contentKind action.kind = true ∧
        (actionSenderPubkey action).all fun text =>
          hexDecode text = some (2 :: List.replicate 32 0x11)) := by
  decide +kernel

theorem sample_proper (transaction : Transaction)
    (h : transaction ∈ [samplePost, sampleVote, sampleDelete]) :
    Proper sampleEnv [9] (2 :: List.replicate 32 0x11) transaction where
  content hid action haction := by
    have hall := sample_actions transaction h
    rw [haction] at hall
    obtain ⟨-, -, hcontent⟩ := of_decide_eq_true hall
    refine ⟨(hcontent hid).1, fun text htext => ?_⟩
    have htext' := (hcontent hid).2
    rw [htext] at htext'
    exact of_decide_eq_true htext'
  kind action haction := by
    have hall := sample_actions transaction h
    rw [haction] at hall
    obtain ⟨hunquote, hblock, -⟩ := of_decide_eq_true hall
    exact ⟨hunquote, hblock⟩

end KaChatIndexer.KaDeletes

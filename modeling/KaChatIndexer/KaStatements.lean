import KaChatIndexer.KaHandlers

/-!
# The statements of a transaction

Every statement that a worker may run for a transaction, with what the transaction's action says of
it, but for the two that remove a deleted content: those follow a read that finds a tombstone.
-/
namespace KaChatIndexer.KaStatements
open ByteStrings KaText KaActions KaStore KaHandlers Interleaving Interleaving.Prog

variable {env : Env} {outputs : Bytes → Option (Option (List TxOutput))} {transaction : Transaction}

/-! ## The check of a signature -/

/-- The tables but for the used signatures. -/
def tables (db : Db) : Db := { db with usedSignatures := [] }

/-- A program that leaves the tables as they are. -/
abbrev Idle {α : Type} (p : Worker α) : Prop := p.Frame (fun _ => True) tables

theorem tables_insertUsed (signature id : Bytes) (db : Db) :
    tables (db.insertUsed signature id).2 = tables db := by
  unfold Db.insertUsed
  split <;> rfl

theorem idle_judge (signature id : Bytes) (first : Option Bytes) :
    Idle (judgeSignature signature id first) := by
  unfold judgeSignature
  split
  · simp
  · split <;> simp

theorem idle_check (env : Env) (transaction : Transaction) (message signature pubkey : Text) :
    Idle (checkSignature env message signature pubkey transaction) := by
  unfold checkSignature
  split
  · split
    · refine .query_bind trivial fun seen => .stmt_bind trivial fun db =>
        ⟨tables_insertUsed _ _ db, ?_⟩
      split
      · exact idle_judge _ _ _
      · split
        · exact idle_judge _ _ _
        · exact .query_bind trivial fun _ => idle_judge _ _ _
    · trivial
  · trivial

section
variable {Q : Sql → (Db → Db) → Prop} (hread : ∀ ev, Q ev id)
include hread

theorem all_judge (signature id : Bytes) (first : Option Bytes) :
    (judgeSignature signature id first).All Q := by
  unfold judgeSignature
  split
  · exact .execute_bind (hread _) trivial
  · split <;> exact .execute_bind (hread _) trivial

/-- The check reads, and inserts the action's own signature. -/
theorem all_check {action : KAction} (haction : transaction.action env = some action)
    (message pubkey : Text) (hused : ∀ signature, transaction.signature env = some signature →
      Q .usedInsert fun db => (db.insertUsed signature transaction.transactionId).2) :
    (checkSignature env message action.senderSignature pubkey transaction).All Q := by
  unfold checkSignature
  split
  · split
    · next signature hsig =>
      have hsigned : transaction.signature env = some signature := by
        simp [Transaction.signature, haction, hsig]
      refine .query_bind (hread _) fun seen => .stmt_bind (hused _ hsigned) fun inserted => ?_
      split
      · exact all_judge hread _ _ _
      · split
        · exact all_judge hread _ _ _
        · exact .query_bind (hread _) fun _ => all_judge hread _ _ _
    · trivial
  · trivial

end

theorem check_refused {message signature pubkey : Text}
    (h : ¬ verifyKaspaSignature env message signature pubkey = true) :
    checkSignature env message signature pubkey transaction = done false := by
  unfold checkSignature
  rw [if_neg h]
  rfl

/-- A signature that no other transaction has used. -/
def Owned (signature id : Bytes) (db : Db) : Prop :=
  ∀ first, db.usedBy signature = some first → first = id

theorem owned_of_unused {signature id : Bytes} {db : Db} (h : db.usedBy signature = none) :
    Owned signature id db := fun first hfirst => by
  rw [h] at hfirst
  cases hfirst

theorem used_insertUsed_mono {signature id : Bytes} {db : Db} (other first : Bytes)
    (h : db.usedBy other = some first) :
    (db.insertUsed signature id).2.usedBy other = some first := by
  unfold Db.insertUsed
  split
  · exact h
  · next hfree =>
    have hne : other ≠ signature := by
      rintro rfl
      simp [h] at hfree
    simpa [Db.usedBy, List.lookup_cons, beq_eq_false_iff_ne.mpr hne] using h

theorem owned_insertUsed {signature id : Bytes} {own : Bytes × Bytes} {db : Db}
    (hid : signature = own.1 → id = own.2) (h : Owned own.1 own.2 db) :
    Owned own.1 own.2 (db.insertUsed signature id).2 := by
  unfold Db.insertUsed
  split
  · exact h
  · intro first hfirst
    rcases eq_or_ne own.1 signature with heq | hne
    · have hid' := hid heq.symm
      simp [Db.usedBy, heq] at hfirst
      exact hfirst ▸ hid'
    · refine h first ?_
      simpa [Db.usedBy, List.lookup_cons, beq_eq_false_iff_ne.mpr hne] using hfirst

theorem usedBy_of_insertUsed {signature id : Bytes} {db : Db}
    (h : (db.insertUsed signature id).1 = false) : ∃ first, db.usedBy signature = some first := by
  unfold Db.insertUsed at h
  split at h
  · next hused => exact Option.isSome_iff_exists.mp hused
  · cases h

/-- With nothing in between, the check passes for the one transaction that uses the signature. -/
theorem fresh_alone {signature id : Bytes} {db : Db} (hown : Owned signature id db) :
    (signatureIsFresh signature id).alone db = (true, (db.insertUsed signature id).2) := by
  cases hused : db.usedBy signature with
  | none => simp [signatureIsFresh, judgeSignature, Db.insertUsed, hused, execute]
  | some first =>
    obtain rfl := hown first hused
    simp [signatureIsFresh, judgeSignature, Db.insertUsed, hused, execute]

theorem checked_alone {message text pubkey : Text} {signature : Bytes} {rest : Worker Unit}
    {db : Db} (hverify : verifyKaspaSignature env message text pubkey = true)
    (hsig : hexDecode text = some signature)
    (hown : Owned signature transaction.transactionId db) :
    (checkSignature env message text pubkey transaction >>= fun fresh =>
        if (!fresh) = true then pure () else rest).alone db =
      rest.alone (db.insertUsed signature transaction.transactionId).2 := by
  rw [alone_bind]
  unfold checkSignature
  rw [if_pos hverify, hsig]
  dsimp only
  rw [fresh_alone hown]
  rfl

theorem process_alone (outputs : Bytes → Option (Option (List TxOutput))) {action : KAction}
    {pubkey : Text} {db : Db} (haction : transaction.action env = some action)
    (hsender : actionSenderPubkey action = some pubkey) (hallowed : db.denies pubkey = false) :
    (processKTransaction env outputs transaction).alone db =
      (processAction env outputs transaction action).alone db := by
  unfold processKTransaction isKapostsDenied
  simp [haction, hsender, hallowed]

/-- A transaction whose author may act, and whose signature no other transaction has used. -/
structure Admitted (env : Env) (transaction : Transaction) (db : Db) : Prop where
  allowed : ∀ text, (transaction.action env).bind actionSenderPubkey = some text →
    db.denies text = false
  owned : ∀ signature, transaction.signature env = some signature →
    Owned signature transaction.transactionId db

/-- A transaction keeps the way open for the others. -/
theorem admitted_after {u : Transaction} {signature : Bytes} {db db' : Db}
    (hsig : transaction.signature env = some signature)
    (hsame : u.signature env = transaction.signature env → u = transaction)
    (hdenylist : db'.kapostsDenylist = db.kapostsDenylist)
    (hused : db'.usedSignatures = (db.insertUsed signature transaction.transactionId).2.usedSignatures)
    (h : Admitted env u db) : Admitted env u db' := by
  refine ⟨fun text htext => ?_, fun own hown => ?_⟩
  · exact (congrArg (fun l => l.contains (toAsciiLowercase text)) hdenylist).trans
      (h.allowed text htext)
  · have hbefore : Owned (own, u.transactionId).1 (own, u.transactionId).2 db := h.owned own hown
    have hafter : Owned own u.transactionId
        (db.insertUsed signature transaction.transactionId).2 := by
      refine owned_insertUsed (fun heq => ?_) hbefore
      obtain rfl := hsame (by rw [hown, hsig, heq])
      rfl
    exact fun first hfirst => hafter first ((congrArg (·.lookup own) hused).symm.trans hfirst)

theorem saveUnlessDeleted_alone (author : Text) (save : Worker Unit) (db : Db) :
    ((saveUnlessDeleted transaction author save).alone db).2 =
      if ((deletedByAuthor transaction author).alone db).1 then db
      else ((dropIfDeleted transaction author).alone (save.alone db).2).2 := by
  have hread : ((deletedByAuthor transaction author).alone db).2 = db := by
    unfold deletedByAuthor
    split <;> rfl
  unfold saveUnlessDeleted
  rw [alone_bind, hread]
  split
  · rfl
  · rw [alone_bind]

section
variable {C : Contract Db Sql Transaction} {may : Sql → Db → Prop} {signature : Bytes} {s : Db}

/-- The check passes for the one transaction that uses the signature. -/
theorem fresh_owned (htold : ∀ ev t, C.told transaction ev t)
    (hown : ∀ t, C.inv t → Owned signature transaction.transactionId t)
    (hmono : ∀ t u first, C.rely t u → t.usedBy signature = some first →
      u.usedBy signature = some first)
    (hinsert : ∀ t, C.inv t → C.rely t (t.insertUsed signature transaction.transactionId).2) :
    C.Safe may transaction (fun b _ => b = true)
      (signatureIsFresh signature transaction.transactionId) s := by
  have hjudge (t : Db) : C.Safe may transaction (fun b _ => b = true)
      (judgeSignature signature transaction.transactionId (some transaction.transactionId)) t := by
    simp only [judgeSignature]
    rw [if_pos trivial]
    exact .execute_bind fun u _ _ _ => ⟨C.refl u, htold _ _, fun _ _ _ => rfl⟩
  refine .query_bind fun t _ hinv _ => ⟨htold _ _, .stmt_bind fun u _ hinvu _ =>
    ⟨hinsert u hinvu, htold _ _, ?_⟩⟩
  cases hin : (u.insertUsed signature transaction.transactionId).1 with
  | true => exact hjudge _
  | false =>
    cases hseen : t.usedBy signature with
    | some first =>
      obtain rfl := hown t hinv first hseen
      exact hjudge _
    | none =>
      obtain ⟨first, hfirst⟩ := usedBy_of_insertUsed hin
      refine .query_bind fun v huv hinvv _ => ⟨htold _ _, ?_⟩
      have hv := hmono _ _ first (C.trans _ _ _ (hinsert u hinvu) huv) hfirst
      obtain rfl := hown v hinvv first hv
      rw [hv]
      exact hjudge _

/-- The check of any action keeps to the contract, and passes for the one that is `mine`. -/
theorem check_mine {action : KAction} {text : Text} {mine : Prop} {own : Bytes × Bytes}
    (haction : transaction.action env = some action)
    (hverify : verifyKaspaSignature env action.signingString action.senderSignature text = true)
    (hmine : mine → transaction.signature env = some own.1)
    (hid : transaction.signature env = some own.1 → transaction.transactionId = own.2)
    (htold : ∀ ev t, C.told transaction ev t) (howned : ∀ t, C.inv t → Owned own.1 own.2 t)
    (hmono : ∀ t u first, C.rely t u → t.usedBy own.1 = some first → u.usedBy own.1 = some first)
    (hinsert : ∀ signature t, transaction.signature env = some signature → C.inv t →
      C.rely t (t.insertUsed signature transaction.transactionId).2) :
    C.Safe may transaction (fun b _ => mine → b = true) (checkSignature env action.signingString
      action.senderSignature text transaction) s := by
  by_cases hm : mine
  · have hsig := hmine hm
    have hdecode : hexDecode action.senderSignature = some own.1 := by
      simpa [Transaction.signature, haction] using hsig
    unfold checkSignature
    rw [if_pos hverify, hdecode]
    refine (fresh_owned htold (fun t ht => ?_) hmono fun t => hinsert _ t hsig).imp fun _ _ _ h _ => h
    rw [hid hsig]
    exact howned t ht
  · have hall := all_check (Q := fun ev write => ∀ t, C.inv t → C.rely t (write t))
      (fun _ t _ => C.refl t) haction action.signingString text fun sig hsig t ht =>
        hinsert sig t hsig ht
    exact .of_all hall (fun _ _ h t ht _ => ⟨h t ht, htold _ _⟩) fun _ _ hm' => absurd hm' hm

end

/-! ## The statements -/

/-- The transaction carries that action, whose signature verifies under the key `key`. -/
def Acts (env : Env) (transaction : Transaction) (action : KAction) (key : Bytes) : Prop :=
  transaction.action env = some action ∧ ∃ text, actionSenderPubkey action = some text ∧
    verifyKaspaSignature env action.signingString action.senderSignature text = true ∧
    hexDecode text = some key

/-- The kinds of action that are contents. -/
def contentKind : Kind → Bool
  | .post | .reply | .quote | .poll => true
  | _ => false

inductive Runs (env : Env) (transaction : Transaction) : Sql → (Db → Db) → Prop
  | read (ev : Sql) : Runs env transaction ev id
  | used {signature : Bytes} (h : transaction.signature env = some signature) :
      Runs env transaction .usedInsert fun db =>
        (db.insertUsed signature transaction.transactionId).2
  | content {action : KAction} {row : Content} {mentions : List Mention}
      (hacts : Acts env transaction action row.senderPubkey)
      (hkind : contentKind action.kind = true)
      (hid : row.transactionId = transaction.transactionId)
      (hmentions : ∀ m ∈ mentions, m.contentId = transaction.transactionId) :
      Runs env transaction (.contentInsert row.transactionId) fun db =>
        (db.insertContent row mentions).2
  | poll {id : Bytes} (row : Poll) : Runs env transaction (.pollInsert id) (Db.insertPoll row)
  | pollMention {k : KPoll} (row : Mention) (haction : transaction.action env = some (.poll k))
      (hid : row.contentId = transaction.transactionId) :
      Runs env transaction (.pollMentionInsert row.contentId) (Db.insertMention row)
  | edit (row : Edit) : Runs env transaction (.editInsert row.postId) (Db.insertEdit row)
  | update (post : Bytes) (message : Text) (time : ℤ) :
      Runs env transaction (.contentUpdate post) fun db => (db.updateContent post message time).2
  | editMention (row : Mention) :
      Runs env transaction (.editMentionInsert row.contentId) (Db.insertEditMention row)
  | tombstone {k : KDelete} {row : Deletion} (hacts : Acts env transaction (.delete k) row.senderPubkey)
      (hpost : hexDecode k.postId = some row.postId) :
      Runs env transaction (.tombstoneInsert row.postId) (Db.insertTombstone row)
  | delete (row : Deletion) : Runs env transaction (.deleteInsert row.postId) (Db.insertDelete row)
  | unquote {k : KUnquote} {content sender : Bytes} (hacts : Acts env transaction (.unquote k) sender)
      (hcontent : hexDecode k.contentId = some content) :
      Runs env transaction (.quotesDelete content) (Db.deleteQuotes content sender)
  | unvote (post sender : Bytes) :
      Runs env transaction (.votesDelete post) (Db.deleteVotes post sender)
  | vote {k : KVote} {row : Vote} {mention : Mention}
      (hacts : Acts env transaction (.vote k) row.senderPubkey)
      (hid : row.transactionId = transaction.transactionId)
      (hmention : mention.contentId = transaction.transactionId) (replaced : List Bytes) :
      Runs env transaction (.voteCommit row.postId) (Db.commitVote row mention replaced)
  | pollVote (row : PollVote) :
      Runs env transaction (.pollVoteInsert row.pollId) (Db.insertPollVote row)
  | tip {k : KTip} (row : Tip) {mention : Mention} (haction : transaction.action env = some (.tip k))
      (hmention : mention.contentId = transaction.transactionId) :
      Runs env transaction (.tipInsert row.postId) (Db.insertTip row mention)
  | newest (kind : RelationKind) (sender target : Bytes) (action : Text) (time : ℤ) :
      Runs env transaction (.relationNewest kind) fun db =>
        (db.upsertRelationLast kind sender target action time).2
  | relate (kind : RelationKind) (row : Relation) :
      Runs env transaction (.relationWrite kind row.senderPubkey row.targetPubkey row.blockTime)
        (Db.insertRelation kind row)
  | unrelate (kind : RelationKind) (row : Relation) :
      Runs env transaction (.relationWrite kind row.senderPubkey row.targetPubkey row.blockTime)
        (Db.deleteRelation kind row.senderPubkey row.targetPubkey row.blockTime)
  | deny {k : KBlock} (haction : transaction.action env = some (.block k)) (key : Text) :
      Runs env transaction .denylistInsert (Db.insertDenied key)
  | purge {k : KBlock} (haction : transaction.action env = some (.block k)) (target : Bytes) :
      Runs env transaction (.purge target) (Db.purge target)
  | allow {k : KBlock} (haction : transaction.action env = some (.block k)) (key : Text) :
      Runs env transaction .denylistDelete (Db.removeDenied key)
  | broadcast (row : Broadcast) (seen : List Broadcast) (replaced : Option (List Bytes)) :
      Runs env transaction (.broadcastCommit row seen) (Db.commitBroadcast row replaced)

/-- The statements of a program are among those of the transaction. -/
abbrev Within {α : Type} (env : Env) (transaction : Transaction) (p : Worker α) : Prop :=
  p.All (Runs env transaction)

theorem within_check {action : KAction} (haction : transaction.action env = some action)
    (message pubkey : Text) :
    Within env transaction (checkSignature env message action.senderSignature pubkey transaction) :=
  all_check .read haction message pubkey fun _ h => .used h

/-- After its check a handler knows that its signature verifies. -/
theorem within_checked {action : KAction} {pubkey : Text} {rest : Worker Unit}
    (haction : transaction.action env = some action) (hsender : actionSenderPubkey action = some pubkey)
    (hrest : (∀ key, hexDecode pubkey = some key → Acts env transaction action key) →
      Within env transaction rest) :
    Within env transaction (checkSignature env action.signingString action.senderSignature pubkey
      transaction >>= fun fresh => if (!fresh) = true then pure () else rest) := by
  by_cases hverify :
    verifyKaspaSignature env action.signingString action.senderSignature pubkey = true
  · refine (within_check haction _ _).bind fun fresh => ?_
    split
    · trivial
    · exact hrest fun key hkey => ⟨haction, pubkey, hsender, hverify, hkey⟩
  · rw [check_refused hverify]
    trivial

theorem within_deletedByAuthor (author : Text) :
    Within env transaction (deletedByAuthor transaction author) := by
  unfold deletedByAuthor
  split
  · trivial
  · exact ⟨.read _, fun _ => trivial⟩

/-! ## The handlers -/

theorem contentRow_eq {pubkey signature message : Text} {type : ContentType}
    {referenced : Option Bytes} {row : Content}
    (h : contentRow transaction pubkey signature message type referenced = some row) :
    row.transactionId = transaction.transactionId ∧ hexDecode pubkey = some row.senderPubkey ∧
      row.contentType = type := by
  obtain ⟨sender, hsender, h⟩ := Option.bind_eq_some_iff.mp h
  obtain ⟨sig, -, rfl⟩ := Option.map_eq_some_iff.mp h
  exact ⟨rfl, hsender, rfl⟩

theorem contentMentions_id {row : Content} {type : MentionType} {keys : List Bytes} {id : Bytes}
    (hid : row.transactionId = id) : ∀ m ∈ contentMentions row type keys, m.contentId = id := by
  intro m hm
  obtain ⟨key, -, rfl⟩ := List.mem_map.mp hm
  exact hid

/-- The insert of a decoded content row. -/
theorem within_insert {action : KAction} {pubkey signature message : Text} {type : ContentType}
    {referenced : Option Bytes} {row : Content} (mentionType : MentionType) (keys : List Bytes)
    (hacts : ∀ key, hexDecode pubkey = some key → Acts env transaction action key)
    (hkind : contentKind action.kind = true)
    (hrow : contentRow transaction pubkey signature message type referenced = some row)
    {rest : Bool → Worker Unit} (hrest : ∀ b, Within env transaction (rest b)) :
    Within env transaction (stmt (.contentInsert row.transactionId)
      (Db.insertContent row (contentMentions row mentionType keys)) >>= rest) :=
  .stmt_bind (.content (hacts _ (contentRow_eq hrow).2.1) hkind (contentRow_eq hrow).1
    (contentMentions_id (contentRow_eq hrow).1)) hrest

theorem within_pollMentions {k : KPoll} (haction : transaction.action env = some (.poll k))
    {row : Content} (hid : row.transactionId = transaction.transactionId) (keys : List Text) :
    Within env transaction (insertPollMentions row keys) := by
  induction keys with
  | nil => trivial
  | cons key keys ih =>
    unfold insertPollMentions
    split
    · exact ih
    · next key' _ =>
      exact .execute_bind (.pollMention ⟨row.transactionId, .post, key', row.blockTime,
        row.senderPubkey⟩ haction hid) ih

theorem within_editMentions (post : Bytes) (type : MentionType) (time : ℤ) (sender : Bytes)
    (keys : List Text) : Within env transaction (insertEditMentions post type time sender keys) := by
  induction keys with
  | nil => trivial
  | cons key keys ih =>
    unfold insertEditMentions
    split
    · exact ih
    · exact .execute_bind (.editMention ⟨post, _, _, _, _⟩) ih

theorem within_applyEdit (row : Edit) (keys : List Text) :
    Within env transaction (applyEdit row keys) := by
  refine .query_bind (.read _) fun original => ?_
  split
  · split
    · trivial
    · split
      · trivial
      · split
        · trivial
        · refine .execute_bind (.edit row) (.stmt_bind (.update _ _ _) fun changed => ?_)
          split
          · trivial
          · exact within_editMentions _ _ _ _ _
  · trivial

theorem within_storeVote {k : KVote} {row : Vote} {mention : Mention}
    (hacts : Acts env transaction (.vote k) row.senderPubkey)
    (hid : row.transactionId = transaction.transactionId)
    (hmention : mention.contentId = transaction.transactionId) :
    Within env transaction (storeVote row mention) := by
  refine .query_bind (.read _) fun target => ?_
  split
  · trivial
  · exact .query_bind (.read _) fun replaced => ⟨.vote hacts hid hmention _, fun _ => trivial⟩

theorem within_storePollVote (row : PollVote) : Within env transaction (storePollVote row) := by
  refine .query_bind (.read _) fun poll => ?_
  split
  · split
    · trivial
    · split
      · trivial
      · exact ⟨.pollVote row, fun _ => trivial⟩
  · trivial

theorem within_storeTip {k : KTip} {row : Tip} (haction : transaction.action env = some (.tip k))
    (hid : row.transactionId = transaction.transactionId)
    (outputs : Option (Option (List TxOutput))) (author : Bytes) :
    Within env transaction (storeTip outputs author row) := by
  refine .query_bind (.read _) fun target => ?_
  split
  · trivial
  · split
    · next paid =>
      dsimp only
      split
      · trivial
      · exact ⟨.tip { row with amount := amountPaidTo paid author } haction hid, fun _ => trivial⟩
    · trivial

theorem within_newest (kind : RelationKind) (row : Relation) (action : Text) {rest : Worker Unit}
    (hrest : Within env transaction rest) :
    Within env transaction (relationIsNewest kind row.senderPubkey row.targetPubkey action
      row.blockTime >>= fun newest => if (!newest) = true then pure () else rest) := by
  refine .stmt_bind (.newest _ _ _ _ _) fun newest => ?_
  split
  · trivial
  · exact hrest

theorem within_follow (row : Relation) (action : Text) :
    Within env transaction (follow row action) := by
  refine .query_bind (.read _) fun related => ?_
  split
  · trivial
  · exact within_newest _ _ _ ⟨.relate _ row, fun _ => trivial⟩

theorem within_unfollow (row : Relation) (action : Text) :
    Within env transaction (unfollow row action) :=
  within_newest _ _ _ ⟨.unrelate _ row, fun _ => trivial⟩

theorem within_block {k : KBlock} (haction : transaction.action env = some (.block k))
    (row : Relation) (action : Text) (targetHex : Option Text) :
    Within env transaction (block row action targetHex) := by
  refine within_newest _ _ _ (.execute_bind (.relate _ row) ?_)
  split
  · exact .execute_bind (.deny haction _) ⟨.purge haction _, fun _ => trivial⟩
  · trivial

theorem within_unblock {k : KBlock} (haction : transaction.action env = some (.block k))
    (row : Relation) (action : Text) (targetHex : Option Text) :
    Within env transaction (unblock row action targetHex) := by
  refine within_newest _ _ _ (.execute_bind (.unrelate _ row) ?_)
  split
  · exact ⟨.allow haction _, fun _ => trivial⟩
  · trivial

theorem within_storeBroadcast (row : Broadcast) :
    Within env transaction (storeBroadcast row) := by
  refine .query_bind (.read _) fun replay => ?_
  split
  · trivial
  · exact .query_bind (.read _) fun seen => ⟨.broadcast _ _ _, fun _ => trivial⟩

/-- The statements of an action that is neither a content nor a delete. -/
theorem within_action {action : KAction} (haction : transaction.action env = some action)
    (hkind : contentKind action.kind = false) (hdelete : action.kind ≠ .delete) :
    Within env transaction (processAction env outputs transaction action) := by
  cases action with
  | post | reply | quote | poll => cases hkind
  | delete => exact absurd rfl hdelete
  | edit k =>
    refine within_checked haction rfl fun hacts => ?_
    repeat' split
    all_goals first | trivial | exact within_applyEdit _ _
  | unquote k =>
    refine within_checked haction rfl fun hacts => ?_
    split
    · next sender hsender =>
      split
      · next content hcontent => exact ⟨.unquote (hacts sender hsender) hcontent, fun _ => trivial⟩
      · trivial
    · trivial
  | vote k =>
    refine within_checked haction rfl fun hacts => ?_
    split
    · next sender hsender =>
      split
      · split
        · exact ⟨.unvote _ _, fun _ => trivial⟩
        · split
          · split
            · exact within_storeVote (hacts sender hsender) rfl rfl
            · trivial
          · trivial
      · trivial
    · trivial
  | pollVote k =>
    refine within_checked haction rfl fun hacts => ?_
    repeat' split
    all_goals first | trivial | exact within_storePollVote _
  | tip k =>
    refine within_checked haction rfl fun hacts => ?_
    repeat' split
    all_goals first | trivial | exact within_storeTip haction rfl _ _
  | follow k =>
    refine within_checked haction rfl fun hacts => ?_
    repeat' split
    all_goals first | trivial | exact within_follow _ _ | exact within_unfollow _ _
  | block k =>
    refine within_checked haction rfl fun hacts => ?_
    repeat' split
    all_goals first | trivial | exact within_block haction _ _ _ | exact within_unblock haction _ _ _
  | broadcast k =>
    show Within env transaction (saveKBroadcastToDatabase env transaction k)
    unfold saveKBroadcastToDatabase
    split
    · trivial
    · refine within_checked haction rfl fun hacts => ?_
      repeat' split
      all_goals first | trivial | exact within_storeBroadcast _
  | unknown => trivial

theorem within_post {k : KPost} (haction : transaction.action env = some (.post k)) :
    Within env transaction (saveKPostToDatabase env transaction k) := by
  refine within_checked haction rfl fun hacts => ?_
  split
  · trivial
  · split
    · next row hrow =>
      split
      · exact within_insert _ _ hacts rfl hrow fun _ => trivial
      · trivial
    · trivial

theorem within_reply {k : KReply} (haction : transaction.action env = some (.reply k)) :
    Within env transaction (saveKReplyToDatabase env transaction k) := by
  refine within_checked haction rfl fun hacts => ?_
  split
  · trivial
  · split
    · split
      · next row hrow =>
        split
        · exact within_insert _ _ hacts rfl hrow fun _ => trivial
        · trivial
      · trivial
    · trivial

theorem within_quote {k : KQuote} (haction : transaction.action env = some (.quote k)) :
    Within env transaction (saveKQuoteToDatabase env transaction k) := by
  refine within_checked haction rfl fun hacts => ?_
  split
  · trivial
  · split
    · split
      · next row hrow =>
        split
        · exact within_insert _ _ hacts rfl hrow fun _ => trivial
        · trivial
      · trivial
    · trivial

theorem within_poll {k : KPoll} (haction : transaction.action env = some (.poll k)) :
    Within env transaction (processKPollInDatabase env transaction k) := by
  refine within_checked haction rfl fun hacts => ?_
  split
  · trivial
  · split
    · trivial
    · split
      · trivial
      · split
        · next row hrow =>
          refine within_insert .post [] hacts rfl hrow fun inserted => ?_
          split
          · trivial
          · exact .execute_bind (.poll _) (within_pollMentions haction (contentRow_eq hrow).1 _)
        · trivial

/-- A content is saved between two looks for a tombstone of its author. -/
theorem action_saves (outputs : Bytes → Option (Option (List TxOutput))) {action : KAction}
    (haction : transaction.action env = some action)
    (hkind : contentKind action.kind = true) :
    ∃ author save, actionSenderPubkey action = some author ∧ Within env transaction save ∧
      processAction env outputs transaction action = saveUnlessDeleted transaction author save := by
  cases action with
  | post k => exact ⟨_, _, rfl, within_post haction, rfl⟩
  | reply k => exact ⟨_, _, rfl, within_reply haction, rfl⟩
  | quote k => exact ⟨_, _, rfl, within_quote haction, rfl⟩
  | poll k => exact ⟨_, _, rfl, within_poll haction, rfl⟩
  | _ => cases hkind

/-- A program that only reads. -/
abbrev Reads {α : Type} (p : Worker α) : Prop := p.All fun _ write => ∀ db, write db = db

theorem reads_denied (action : KAction) : Reads (isKapostsDenied action) := by
  unfold isKapostsDenied
  split
  · trivial
  · exact ⟨fun _ => rfl, fun _ => trivial⟩

theorem reads_deletedByAuthor (author : Text) : Reads (deletedByAuthor transaction author) := by
  unfold deletedByAuthor
  split
  · trivial
  · exact ⟨fun _ => rfl, fun _ => trivial⟩

theorem within_denied (action : KAction) : Within env transaction (isKapostsDenied action) := by
  unfold isKapostsDenied
  split
  · trivial
  · exact ⟨.read _, fun _ => trivial⟩

end KaChatIndexer.KaStatements

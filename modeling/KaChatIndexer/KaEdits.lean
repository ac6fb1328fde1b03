import Mathlib.Data.List.MinMax
import KaChatIndexer.KaSample
import KaChatIndexer.KaStatements

/-!
# Edits one after another

Of the edits that come after their content the newest in the window stands, in whatever order they
come. An edit that comes before it is passed over, and does not come again.
-/
namespace KaChatIndexer.KaEdits
open ByteStrings KaText KaActions KaStore KaHandlers KaSample KaStatements Interleaving
open Interleaving.Prog

variable {env : Env} {outputs : Bytes → Option (Option (List TxOutput))} {row : Content}

/-! ## Contents -/

/-- A valid signed post, reply or quote, with the row and the mentions that it makes. -/
inductive SavedAs (env : Env) (transaction : Transaction) : Content → List Mention → Prop
  | post {k : KPost} {row : Content} {mentioned : List Bytes}
      (haction : transaction.action env = some (.post k))
      (hverify : verifyKaspaSignature env (KAction.post k).signingString k.senderSignature
        k.senderPubkey = true)
      (hmessage : (validateKachatMessage k.base64EncodedMessage).isOk = true)
      (hrow : contentRow transaction k.senderPubkey k.senderSignature k.base64EncodedMessage .post
        none = some row)
      (hmentioned : (if k.isKchat then k.mentionedPubkeys else []).mapM hexDecode = some mentioned) :
      SavedAs env transaction row (contentMentions row .post (dedupeXonly mentioned))
  | reply {k : KReply} {row : Content} {post : Bytes} {mentioned : List Bytes}
      (haction : transaction.action env = some (.reply k))
      (hverify : verifyKaspaSignature env (KAction.reply k).signingString k.senderSignature
        k.senderPubkey = true)
      (hmessage : (validateKachatMessage k.base64EncodedMessage).isOk = true)
      (hpost : hexDecode k.postId = some post)
      (hrow : contentRow transaction k.senderPubkey k.senderSignature k.base64EncodedMessage .reply
        (some post) = some row)
      (hmentioned : k.mentionedPubkeys.mapM hexDecode = some mentioned) :
      SavedAs env transaction row (contentMentions row .reply (dedupeXonly mentioned))
  | quote {k : KQuote} {row : Content} {content mentioned : Bytes}
      (haction : transaction.action env = some (.quote k))
      (hverify : verifyKaspaSignature env (KAction.quote k).signingString k.senderSignature
        k.senderPubkey = true)
      (hmessage : (validateKachatMessage k.base64EncodedMessage).isOk = true)
      (hcontent : hexDecode k.contentId = some content)
      (hrow : contentRow transaction k.senderPubkey k.senderSignature k.base64EncodedMessage .quote
        (some content) = some row)
      (hmentioned : hexDecode k.mentionedPubkey = some mentioned) :
      SavedAs env transaction row (contentMentions row .quote [mentioned])

/-- What a row says of its transaction. -/
structure RowOf (env : Env) (transaction : Transaction) (row : Content) : Prop where
  id : row.transactionId = transaction.transactionId
  time : row.blockTime = transaction.time
  signed : transaction.signature env = some row.senderSignature
  notPoll : row.contentType ≠ .poll
  unedited : row.editedAt = none

theorem contentRow_of {target : Transaction} {action : KAction} {pubkey message : Text}
    {type : ContentType} {referenced : Option Bytes} (haction : target.action env = some action)
    (h : contentRow target pubkey action.senderSignature message type referenced = some row)
    (htype : type ≠ .poll) :
    RowOf env target row ∧ hexDecode pubkey = some row.senderPubkey := by
  obtain ⟨sender, hsender, h⟩ := Option.bind_eq_some_iff.mp h
  obtain ⟨signature, hsig, rfl⟩ := Option.map_eq_some_iff.mp h
  refine ⟨⟨rfl, rfl, ?_, htype, rfl⟩, hsender⟩
  rw [Transaction.signature, haction]
  exact hsig

variable {target : Transaction} {mentions : List Mention} {db : Db}

theorem SavedAs.rowOf (h : SavedAs env target row mentions) : RowOf env target row := by
  cases h with
  | post haction hverify hmessage hrow hmentioned =>
    exact (contentRow_of haction hrow nofun).1
  | reply haction hverify hmessage hpost hrow hmentioned =>
    exact (contentRow_of haction hrow nofun).1
  | quote haction hverify hmessage hcontent hrow hmentioned =>
    exact (contentRow_of haction hrow nofun).1

/-- With no tombstone of its author a content is saved and stays. -/
theorem saved_alone {author : Text} {save : Worker Unit} {after : Db}
    (hauthor : hexDecode author = some row.senderPubkey)
    (hnone : db.hasTombstone target.transactionId row.senderPubkey = false)
    (hsave : (save.alone db).2 = after) (hkept : after.deleteTombstones = db.deleteTombstones) :
    ((saveUnlessDeleted target author save).alone db).2 = after := by
  have hlook (db' : Db) (h : db'.deleteTombstones = db.deleteTombstones) :
      (deletedByAuthor target author).alone db' = (false, db') := by
    have hnone' : db'.hasTombstone target.transactionId row.senderPubkey = false := by
      rw [← hnone, Db.hasTombstone, Db.hasTombstone, h]
    simp [deletedByAuthor, hauthor, query, hnone']
  rw [saveUnlessDeleted_alone, hlook db rfl, if_neg Bool.false_ne_true, hsave, dropIfDeleted,
    alone_bind, hlook after hkept]
  rfl

/-- What decides whether a transaction is let in. -/
def kept (db : Db) : List Text × List (Bytes × Bytes) × List Deletion :=
  (db.kapostsDenylist, db.usedSignatures, db.deleteTombstones)

theorem kept_insertContent (row : Content) (mentions : List Mention) (db : Db) :
    kept (db.insertContent row mentions).2 = kept db := by
  unfold Db.insertContent
  split <;> rfl

theorem tombstones_insertUsed (signature id : Bytes) (db : Db) :
    (db.insertUsed signature id).2.deleteTombstones = db.deleteTombstones := by
  unfold Db.insertUsed
  split <;> rfl

/-- The statement that stores a content is what its transaction does. -/
theorem process_target (outputs : Bytes → Option (Option (List TxOutput)))
    (h : SavedAs env target row mentions) (hadmitted : Admitted env target db)
    (hnone : db.hasTombstone target.transactionId row.senderPubkey = false) :
    ((processKTransaction env outputs target).alone db).2 =
      ((db.insertUsed row.senderSignature target.transactionId).2.insertContent row mentions).2 := by
  have howned := hadmitted.owned _ h.rowOf.signed
  have hkept : ((db.insertUsed row.senderSignature target.transactionId).2.insertContent row
      mentions).2.deleteTombstones = db.deleteTombstones :=
    (congrArg (·.2.2) (kept_insertContent row mentions _)).trans (tombstones_insertUsed _ _ _)
  have hsigned := h.rowOf.signed
  cases h with
  | @post k row mentioned haction hverify hmessage hrow hmentioned =>
    have hauthor := (contentRow_of haction hrow (by decide)).2
    rw [Transaction.signature, haction] at hsigned
    rw [process_alone outputs haction rfl (hadmitted.allowed k.senderPubkey (by rw [haction]; rfl))]
    refine saved_alone hauthor hnone ?_ hkept
    rw [saveKPostToDatabase, checked_alone hverify hsigned howned, if_neg (by simpa using hmessage),
      hrow]
    simp only [hmentioned]
    simp [stmt]
  | @reply k row post mentioned haction hverify hmessage hpost hrow hmentioned =>
    have hauthor := (contentRow_of haction hrow (by decide)).2
    rw [Transaction.signature, haction] at hsigned
    rw [process_alone outputs haction rfl (hadmitted.allowed k.senderPubkey (by rw [haction]; rfl))]
    refine saved_alone hauthor hnone ?_ hkept
    rw [saveKReplyToDatabase, checked_alone hverify hsigned howned, if_neg (by simpa using hmessage),
      hpost]
    simp only [hrow, hmentioned]
    simp [stmt]
  | @quote k row content mentioned haction hverify hmessage hcontent hrow hmentioned =>
    have hauthor := (contentRow_of haction hrow (by decide)).2
    rw [Transaction.signature, haction] at hsigned
    rw [process_alone outputs haction rfl (hadmitted.allowed k.senderPubkey (by rw [haction]; rfl))]
    refine saved_alone hauthor hnone ?_ hkept
    rw [saveKQuoteToDatabase, checked_alone hverify hsigned howned, if_neg (by simpa using hmessage),
      hcontent]
    simp only [hrow, hmentioned]
    simp [stmt]

/-! ## Edits -/

/-- An edit of the content that its author has signed. -/
def EditsOf (env : Env) (row : Content) (t : Transaction) : Prop :=
  ∃ k, Acts env t (.edit k) row.senderPubkey ∧
    (validateKachatMessage k.base64EncodedMessage).isOk = true ∧
    hexDecode k.postId = some row.transactionId

/-- The edit's message, and the row that it makes of the content. -/
def editedBy (env : Env) (row : Content) : Option Transaction → Content
  | none => row
  | some t =>
    match t.action env with
    | some (.edit k) =>
        { row with base64EncodedMessage := k.base64EncodedMessage, editedAt := some t.time }
    | _ => row

/-- The database but for edits and mentions. -/
def shed (db : Db) : Db := { db with mentions := [], edits := [] }

theorem shed_editMentions (post : Bytes) (type : MentionType) (time : ℤ) (sender : Bytes)
    (keys : List Text) (db : Db) :
    shed ((insertEditMentions post type time sender keys).alone db).2 = shed db := by
  have hframe : (insertEditMentions post type time sender keys).Frame (fun _ => True) shed := by
    induction keys with
    | nil => trivial
    | cons key keys ih =>
      unfold insertEditMentions
      split
      · exact ih
      · refine .execute_bind trivial (fun db => ?_) ih
        unfold Db.insertEditMention
        split <;> rfl
  exact hframe.alone db

/-- An edit of a content that is there. -/
theorem shed_applyEdit {e : Edit} {c : Content} (keys : List Text)
    (hcontent : db.content e.postId = some c) (hpoll : c.contentType ≠ .poll)
    (hauthor : c.senderPubkey = e.senderPubkey) :
    shed ((applyEdit e keys).alone db).2 =
      if c.blockTime + editWindowMs < e.blockTime then shed db
      else shed (db.updateContent e.postId e.base64EncodedMessage e.blockTime).2 := by
  have hafter : shed ((db.insertEdit e).updateContent e.postId e.base64EncodedMessage
      e.blockTime).2 = shed (db.updateContent e.postId e.base64EncodedMessage e.blockTime).2 := by
    unfold Db.insertEdit
    split <;> rfl
  have hread : (query .contentSelect (·.content e.postId) : Worker (Option Content)).alone db =
      (some c, db) := congrArg (·, db) hcontent
  rw [applyEdit, alone_bind, hread]
  dsimp only
  rw [if_neg hpoll, if_neg (not_not.mpr hauthor)]
  split
  · rfl
  · rw [alone_bind, alone_bind, ← hafter]
    split
    · rfl
    · exact shed_editMentions _ _ _ _ _ _

theorem kept_applyEdit (e : Edit) (keys : List Text) (db : Db) :
    kept ((applyEdit e keys).alone db).2 = kept db := by
  have hmentions (type : MentionType) : (insertEditMentions e.postId type e.blockTime
      e.senderPubkey keys).Frame (fun _ => True) kept := by
    induction keys with
    | nil => trivial
    | cons key keys ih =>
      unfold insertEditMentions
      split
      · exact ih
      · refine .execute_bind trivial (fun db => ?_) ih
        unfold Db.insertEditMention
        split <;> rfl
  have hframe : (applyEdit e keys).Frame (fun _ => True) kept := by
    refine .query_bind trivial fun original => ?_
    split
    · split
      · trivial
      · split
        · trivial
        · split
          · trivial
          · refine .execute_bind trivial (fun db => ?_) (.stmt_bind trivial fun db => ⟨rfl, ?_⟩)
            · unfold Db.insertEdit
              split <;> rfl
            · split
              · trivial
              · exact hmentions _
    · trivial
  exact hframe.alone db

theorem process_edit (outputs : Bytes → Option (Option (List TxOutput))) {t : Transaction}
    (h : EditsOf env row t) (hadmitted : Admitted env t db) :
    ∃ k signature keys, t.action env = some (.edit k) ∧ t.signature env = some signature ∧
      ((processKTransaction env outputs t).alone db).2 =
        ((applyEdit ⟨t.transactionId, t.time, row.senderPubkey, signature, row.transactionId,
          k.base64EncodedMessage⟩ keys).alone (db.insertUsed signature t.transactionId).2).2 := by
  obtain ⟨k, ⟨haction, text, htext, hverify, hsender⟩, hmessage, hpost⟩ := h
  obtain rfl := Option.some.inj htext
  obtain ⟨signature, -, hsig, -⟩ := verify_decodes hverify
  have hsig' : hexDecode k.senderSignature = some signature := hsig
  have hverify' : verifyKaspaSignature env (KAction.edit k).signingString k.senderSignature
      k.senderPubkey = true := hverify
  have hsigned : t.signature env = some signature := by
    rw [Transaction.signature, haction]
    exact hsig
  refine ⟨k, signature, if k.isKchat then k.mentionedPubkeys else [], haction, hsigned, ?_⟩
  rw [process_alone outputs haction rfl (hadmitted.allowed k.senderPubkey (by rw [haction]; rfl)),
    processAction, processKEditInDatabase,
    checked_alone hverify' hsig' (hadmitted.owned _ hsigned), if_neg (by simpa using hmessage)]
  simp only [hsender, hsig', hpost]

/-! ## One content -/

/-- Of the transactions' contents none is stored, and the content has no tombstone. -/
structure Missing (row : Content) (db : Db) : Prop where
  free : ∀ c ∈ db.contents, c.transactionId ≠ row.transactionId ∧
    c.senderSignature ≠ row.senderSignature
  tombstone : db.hasTombstone row.transactionId row.senderPubkey = false

/-- The content is stored as the edit left it. -/
structure Shows (env : Env) (row : Content) (edit : Option Transaction) (db : Db) : Prop where
  stored : db.contents.filter (·.transactionId = row.transactionId) = [editedBy env row edit]
  tombstone : db.hasTombstone row.transactionId row.senderPubkey = false

/-- Later than the content, and within the window. -/
def inWindow (row : Content) (t : Transaction) : Bool :=
  row.blockTime < t.time ∧ t.time ≤ row.blockTime + editWindowMs

/-- The newest edit in the window. -/
def newestEdit (row : Content) (transactions : List Transaction) : Option Transaction :=
  @List.argmax _ _ Int.instLinearOrder.toPreorder _ (·.time) (transactions.filter (inWindow row))

theorem editedBy_eq (env : Env) (row : Content) (edit : Option Transaction) :
    ∃ message time, editedBy env row edit =
      { row with base64EncodedMessage := message, editedAt := time } := by
  cases edit with
  | none => exact ⟨_, _, rfl⟩
  | some t =>
    unfold editedBy
    dsimp only
    split
    · exact ⟨_, _, rfl⟩
    · exact ⟨_, _, rfl⟩

theorem newestEdit_append (row : Content) (transactions : List Transaction) (t : Transaction) :
    newestEdit row (transactions ++ [t]) =
      if inWindow row t = true ∧ ∀ c ∈ newestEdit row transactions, c.time < t.time then some t
      else newestEdit row transactions := by
  unfold newestEdit
  by_cases hin : inWindow row t = true
  · rw [List.filter_append, List.filter_singleton, hin, cond_true, List.argmax_concat]
    cases (transactions.filter (inWindow row)).argmax (·.time) with
    | none => simp
    | some c => simp
  · rw [List.filter_append, List.filter_singleton, Bool.eq_false_iff.mpr hin, cond_false,
      List.append_nil, if_neg fun h => Bool.false_ne_true h.1]

theorem newestEdit_mem {transactions : List Transaction} {t : Transaction}
    (h : newestEdit row transactions = some t) : t ∈ transactions ∧ inWindow row t = true :=
  List.mem_filter.mp (List.argmax_mem h)

/-! ## Steps -/

theorem hasTombstone_congr {db db' : Db} (h : db'.deleteTombstones = db.deleteTombstones)
    (id author : Bytes) : db'.hasTombstone id author = db.hasTombstone id author := by
  rw [Db.hasTombstone, Db.hasTombstone, h]

section
variable (outputs) {t : Transaction}

/-- What one of the transactions does besides. -/
theorem process_kept (hrow : RowOf env target row) (hsaved : SavedAs env target row mentions)
    (ht : t = target ∨ EditsOf env row t) (hadmitted : Admitted env t db)
    (hnone : db.hasTombstone row.transactionId row.senderPubkey = false) :
    ∃ signature, t.signature env = some signature ∧
      kept ((processKTransaction env outputs t).alone db).2 =
        kept (db.insertUsed signature t.transactionId).2 := by
  rcases ht with rfl | hedit
  · refine ⟨_, hrow.signed, ?_⟩
    rw [process_target outputs hsaved hadmitted (hrow.id ▸ hnone)]
    exact kept_insertContent _ _ _
  · obtain ⟨k, signature, keys, -, hsig, hafter⟩ := process_edit outputs hedit hadmitted
    exact ⟨signature, hsig, hafter ▸ kept_applyEdit _ _ _⟩

theorem contents_insertUsed (signature id : Bytes) (db : Db) :
    (db.insertUsed signature id).2.contents = db.contents := by
  unfold Db.insertUsed
  split <;> rfl

/-- An edit before its content is passed over. -/
theorem missing_edit (h : Missing row db) (hedit : EditsOf env row t)
    (hadmitted : Admitted env t db) :
    Missing row ((processKTransaction env outputs t).alone db).2 := by
  obtain ⟨k, signature, keys, -, -, hafter⟩ := process_edit outputs hedit hadmitted
  have hcontents := contents_insertUsed signature t.transactionId db
  have hnone : (db.insertUsed signature t.transactionId).2.content row.transactionId = none := by
    refine List.find?_eq_none.mpr fun c hc => ?_
    simpa using (h.free c (hcontents ▸ hc)).1
  have hsame : ((processKTransaction env outputs t).alone db).2 =
      (db.insertUsed signature t.transactionId).2 := by
    rw [hafter, applyEdit, alone_bind]
    simp [query, hnone]
  rw [hsame]
  exact ⟨fun c hc => h.free c (hcontents ▸ hc),
    (hasTombstone_congr (tombstones_insertUsed _ _ _) _ _).trans h.tombstone⟩

theorem missing_target (h : Missing row db) (hrow : RowOf env target row)
    (hsaved : SavedAs env target row mentions) (hadmitted : Admitted env target db) :
    Shows env row none ((processKTransaction env outputs target).alone db).2 := by
  have hcontents := contents_insertUsed row.senderSignature target.transactionId db
  rw [process_target outputs hsaved hadmitted (hrow.id ▸ h.tombstone)]
  refine ⟨?_, (hasTombstone_congr ((congrArg (·.2.2) (kept_insertContent row mentions _)).trans
    (tombstones_insertUsed _ _ _)) _ _).trans h.tombstone⟩
  have hfree : (db.insertUsed row.senderSignature target.transactionId).2.contents.any (fun c =>
      c.senderSignature = row.senderSignature ∨ c.transactionId = row.transactionId) = false := by
    refine List.any_eq_false.mpr fun c hc => ?_
    obtain ⟨hid, hsig⟩ := h.free c (hcontents ▸ hc)
    simp [hid, hsig]
  have hnone : (db.insertUsed row.senderSignature target.transactionId).2.contents.filter
      (·.transactionId = row.transactionId) = [] :=
    List.filter_eq_nil_iff.mpr fun c hc => by simpa using (h.free c (hcontents ▸ hc)).1
  unfold Db.insertContent
  rw [hfree, if_neg Bool.false_ne_true, List.filter_append, hnone]
  simp [editedBy]

theorem shows_target {edit : Option Transaction} (h : Shows env row edit db)
    (hrow : RowOf env target row) (hsaved : SavedAs env target row mentions)
    (hadmitted : Admitted env target db) :
    Shows env row edit ((processKTransaction env outputs target).alone db).2 := by
  have hcontents := contents_insertUsed row.senderSignature target.transactionId db
  obtain ⟨c, hc⟩ : ∃ c, c ∈ db.contents.filter (·.transactionId = row.transactionId) :=
    ⟨_, h.stored ▸ List.mem_singleton_self _⟩
  obtain ⟨hmem, hid⟩ := List.mem_filter.mp hc
  have hthere : (db.insertUsed row.senderSignature target.transactionId).2.contents.any (fun c =>
      c.senderSignature = row.senderSignature ∨ c.transactionId = row.transactionId) = true :=
    List.any_eq_true.mpr ⟨c, hcontents ▸ hmem, by simpa using .inr (of_decide_eq_true hid)⟩
  rw [process_target outputs hsaved hadmitted (hrow.id ▸ h.tombstone)]
  unfold Db.insertContent
  rw [hthere, if_pos rfl]
  exact ⟨hcontents ▸ h.stored,
    (hasTombstone_congr (tombstones_insertUsed _ _ _) _ _).trans h.tombstone⟩

/-- The time from which an edit counts as newer. -/
theorem effective_time {after : List Transaction} (hunedited : row.editedAt = none)
    (hedits : ∀ u ∈ newestEdit row after, EditsOf env row u) :
    (editedBy env row (newestEdit row after)).editedAt.getD
        (editedBy env row (newestEdit row after)).blockTime =
      ((newestEdit row after).map (·.time)).getD row.blockTime := by
  cases hnewest : newestEdit row after with
  | none => simp [editedBy, hunedited]
  | some u =>
    obtain ⟨k, ⟨haction, -⟩, -⟩ := hedits u hnewest
    simp [editedBy, haction]

theorem newer_iff {after : List Transaction} :
    (inWindow row t = true ∧ ∀ c ∈ newestEdit row after, c.time < t.time) ↔
      ¬ row.blockTime + editWindowMs < t.time ∧
        ((newestEdit row after).map (·.time)).getD row.blockTime < t.time := by
  unfold inWindow
  cases hnewest : newestEdit row after with
  | none => simp [and_comm]
  | some c =>
    have hc := (newestEdit_mem hnewest).2
    unfold inWindow at hc
    simp only [Bool.decide_and, Bool.and_eq_true, decide_eq_true_eq, Option.mem_def,
      Option.some.injEq, forall_eq', Option.map_some, Option.getD_some, not_lt] at hc ⊢
    omega

theorem filter_updateContent {shown : Content} (message : Text) (time : ℤ)
    (h : db.contents.filter (·.transactionId = row.transactionId) = [shown]) :
    (db.updateContent row.transactionId message time).2.contents.filter
        (·.transactionId = row.transactionId) =
      [if Db.editApplies row.transactionId time shown then
        { shown with base64EncodedMessage := message, editedAt := some time } else shown] := by
  have hkeep : (fun c : Content => decide (c.transactionId = row.transactionId)) ∘ (fun c =>
      if Db.editApplies row.transactionId time c then
        { c with base64EncodedMessage := message, editedAt := some time } else c) =
      fun c => decide (c.transactionId = row.transactionId) := by
    funext c
    dsimp only [Function.comp]
    split <;> rfl
  unfold Db.updateContent
  rw [List.filter_map, hkeep, h, List.map_singleton]

/-- An edit after its content. -/
theorem shows_edit {after : List Transaction} (h : Shows env row (newestEdit row after) db)
    (hrow : RowOf env target row) (hedits : ∀ u ∈ newestEdit row after, EditsOf env row u)
    (hedit : EditsOf env row t) (hadmitted : Admitted env t db) :
    Shows env row (newestEdit row (after ++ [t]))
      ((processKTransaction env outputs t).alone db).2 := by
  obtain ⟨k, signature, keys, haction, -, hafter⟩ := process_edit outputs hedit hadmitted
  let before := (db.insertUsed signature t.transactionId).2
  have hstored : before.contents.filter (·.transactionId = row.transactionId) =
      [editedBy env row (newestEdit row after)] :=
    contents_insertUsed signature t.transactionId db ▸ h.stored
  obtain ⟨message, time, hshown⟩ := editedBy_eq env row (newestEdit row after)
  have hcontent : before.content row.transactionId = some (editedBy env row (newestEdit row after)) := by
    rw [Db.content, ← List.head?_filter, hstored]
    rfl
  have htime := effective_time hrow.unedited hedits
  rw [hafter]
  refine ⟨?_, (hasTombstone_congr ((congrArg (·.2.2) (kept_applyEdit _ _ _)).trans
    (tombstones_insertUsed _ _ _)) _ _).trans h.tombstone⟩
  have hshed := shed_applyEdit (e := ⟨t.transactionId, t.time, row.senderPubkey, signature,
    row.transactionId, k.base64EncodedMessage⟩) keys hcontent
    (by rw [hshown]; exact hrow.notPoll) (by rw [hshown])
  have hcontents := congrArg Db.contents hshed
  have hblock : (editedBy env row (newestEdit row after)).blockTime = row.blockTime := by rw [hshown]
  have hid : (editedBy env row (newestEdit row after)).transactionId = row.transactionId := by
    rw [hshown]
  rw [hblock] at hcontents
  rw [newestEdit_append]
  split at hcontents
  · next hlate =>
    rw [if_neg fun hin => (newer_iff.mp hin).1 hlate]
    exact hcontents ▸ hstored
  · next hsoon =>
    have hupdated := filter_updateContent k.base64EncodedMessage t.time hstored
    rw [show ((applyEdit _ keys).alone _).2.contents = _ from hcontents]
    refine hupdated.trans ?_
    by_cases hnewer : ((newestEdit row after).map (·.time)).getD row.blockTime < t.time
    · rw [if_pos (newer_iff.mpr ⟨hsoon, hnewer⟩),
        if_pos (by simpa [Db.editApplies, hid, htime] using hnewer)]
      have hedited : editedBy env row (some t) =
          { row with base64EncodedMessage := k.base64EncodedMessage, editedAt := some t.time } := by
        simp [editedBy, haction]
      rw [hedited, hshown]
    · rw [if_neg fun hin => hnewer (newer_iff.mp hin).2,
        if_neg (by simpa [Db.editApplies, hid, htime] using hnewer)]

end

/-! ## Runs -/

section
variable (outputs) {transactions : List Transaction} (hrow : RowOf env target row)
  (hsaved : SavedAs env target row mentions)
  (hours : ∀ t ∈ transactions, t = target ∨ EditsOf env row t)
  (hsame : ∀ t ∈ transactions, ∀ u ∈ transactions, u.signature env = t.signature env → u = t)
include hrow hsaved hours hsame

theorem process_admitted {t : Transaction} (ht : t ∈ transactions)
    (hadmitted : ∀ u ∈ transactions, Admitted env u db)
    (hnone : db.hasTombstone row.transactionId row.senderPubkey = false) :
    ∀ u ∈ transactions, Admitted env u ((processKTransaction env outputs t).alone db).2 := by
  obtain ⟨signature, hsig, hkept⟩ :=
    process_kept outputs hrow hsaved (hours t ht) (hadmitted t ht) hnone
  intro u hu
  have hdenylist : (db.insertUsed signature t.transactionId).2.kapostsDenylist =
      db.kapostsDenylist := by
    unfold Db.insertUsed
    split <;> rfl
  exact admitted_after hsig (hsame t ht u hu) ((congrArg (·.1) hkept).trans hdenylist)
    (congrArg (·.2.1) hkept) (hadmitted u hu)

/-- Before the content all edits are passed over. -/
theorem processAll_missing {run : List Transaction} (hrun : ∀ t ∈ run, t ∈ transactions)
    (htarget : target ∉ run) (hadmitted : ∀ u ∈ transactions, Admitted env u db)
    (h : Missing row db) :
    (∀ u ∈ transactions, Admitted env u (processAll env outputs run db)) ∧
      Missing row (processAll env outputs run db) := by
  induction run using List.reverseRecOn with
  | nil => exact ⟨hadmitted, h⟩
  | append_singleton run t ih =>
    rw [List.mem_append, not_or] at htarget
    obtain ⟨hadmitted', h'⟩ := ih (fun u hu => hrun u (List.mem_append_left _ hu)) htarget.1
    have ht : t ∈ transactions := hrun t (by simp)
    have hedit : EditsOf env row t :=
      (hours t ht).resolve_left fun heq => htarget.2 (heq ▸ List.mem_singleton_self t)
    rw [processAll, List.foldl_append]
    exact ⟨process_admitted outputs hrow hsaved hours hsame ht hadmitted' h'.tombstone,
      missing_edit outputs h' hedit (hadmitted' t ht)⟩

/-- After the content the newest edit in the window stands. -/
theorem processAll_shows {run : List Transaction} (hrun : ∀ t ∈ run, t ∈ transactions)
    (hadmitted : ∀ u ∈ transactions, Admitted env u db) (h : Shows env row none db) :
    (∀ u ∈ transactions, Admitted env u (processAll env outputs run db)) ∧
      Shows env row (newestEdit row run) (processAll env outputs run db) := by
  induction run using List.reverseRecOn with
  | nil => exact ⟨hadmitted, h⟩
  | append_singleton run t ih =>
    obtain ⟨hadmitted', h'⟩ := ih fun u hu => hrun u (List.mem_append_left _ hu)
    have ht : t ∈ transactions := hrun t (by simp)
    have hlater (u : Transaction) (hin : inWindow row u = true) : u ≠ target := by
      rintro rfl
      simp [inWindow, hrow.time] at hin
    rw [processAll, List.foldl_append]
    refine ⟨process_admitted outputs hrow hsaved hours hsame ht hadmitted' h'.tombstone, ?_⟩
    rcases hours t ht with rfl | hedit
    · rw [newestEdit_append, if_neg fun hin => hlater t hin.1 rfl]
      exact shows_target outputs h' hrow hsaved (hadmitted' t ht)
    · refine shows_edit outputs h' hrow (fun u hu => ?_) hedit (hadmitted' t ht)
      obtain ⟨hmem, hin⟩ := newestEdit_mem hu
      exact (hours u (hrun u (List.mem_append_left _ hmem))).resolve_left (hlater u hin)

end

theorem newest_unique {transactions : List Transaction} {e : Transaction}
    (hdistinct : ∀ t ∈ transactions, inWindow row t = true → t.time = e.time → t = e)
    (h : e ∈ newestEdit row transactions) {some' : List Transaction}
    (hsub : ∀ t ∈ some', t ∈ transactions) (he : e ∈ some') : newestEdit row some' = some e := by
  have hin := (newestEdit_mem h).2
  have hmem : e ∈ some'.filter (inWindow row) := List.mem_filter.mpr ⟨he, hin⟩
  cases hnewest : newestEdit row some' with
  | none =>
    rw [newestEdit, List.argmax_eq_none] at hnewest
    rw [hnewest] at hmem
    cases hmem
  | some c =>
    obtain ⟨hc, hcin⟩ := newestEdit_mem hnewest
    have hle : e.time ≤ c.time := List.le_of_mem_argmax hmem hnewest
    have hge : c.time ≤ e.time :=
      List.le_of_mem_argmax (List.mem_filter.mpr ⟨hsub c hc, hcin⟩) h
    rw [hdistinct c (hsub c hc) hcin (le_antisymm hge hle)]

theorem mem_after_first {α : Type*} {x e : α} {before after before' after' : List α}
    (h : before ++ x :: after = before' ++ x :: after') (hfirst : x ∉ before) (he : e ∈ after') :
    e ∈ after := by
  rcases List.append_eq_append_iff.mp h with ⟨between, -, hrest⟩ | ⟨between, hbefore, hrest⟩
  · cases between with
    | nil => exact (List.cons.inj hrest).2 ▸ he
    | cons y between =>
      rw [(List.cons.inj hrest).2]
      simp [he]
  · cases between with
    | nil => exact (List.cons.inj hrest).2 ▸ he
    | cons y between =>
      refine absurd ?_ hfirst
      rw [hbefore, (List.cons.inj hrest).1]
      simp

def sampleAuthor : Bytes := 2 :: List.replicate 32 0x22

def samplePost : Transaction :=
  sample 9 1 ["post".toList, sampleKey '2' '2', sampleSignature 'a', "4oGg".toList, "[]".toList]

def sampleEdit : Transaction :=
  sample 3 5 ["edit".toList, sampleKey '2' '2', sampleSignature 'b', "09".toList, "4oGgeA==".toList,
    "[]".toList]

def sampleRow : Content :=
  ⟨[9], 1, sampleAuthor, List.replicate 64 0xaa, "4oGg".toList, .post, none, none⟩

theorem samplePost_saved : SavedAs sampleEnv samplePost sampleRow [] :=
  @SavedAs.post sampleEnv samplePost
    ⟨sampleKey '2' '2', sampleSignature 'a', "4oGg".toList, [], true⟩ sampleRow []
    (by decide +kernel) (by decide +kernel) (by decide +kernel) (by decide +kernel)
    (by decide +kernel)

theorem sampleEdit_edits : EditsOf sampleEnv sampleRow sampleEdit :=
  ⟨⟨sampleKey '2' '2', sampleSignature 'b', "09".toList, "4oGgeA==".toList, [], true⟩,
    ⟨by decide +kernel, _, rfl, by decide +kernel, by decide +kernel⟩, by decide +kernel,
    by decide +kernel⟩

theorem missing_empty : Missing sampleRow Db.empty :=
  ⟨fun _ h => absurd h List.not_mem_nil, rfl⟩

theorem admitted_empty (t : Transaction) : Admitted sampleEnv t Db.empty :=
  ⟨fun _ _ => rfl, fun _ _ => owned_of_unused rfl⟩

end KaChatIndexer.KaEdits

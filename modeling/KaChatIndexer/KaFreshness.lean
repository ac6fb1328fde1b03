import KaChatIndexer.KaSample

/-!
# One transaction per signature

An entry of `kachat_used_signatures` never changes, and a check passes exactly when the entry is the
transaction's own. So however the statements of the workers are interleaved, one transaction gets
past the check with a signature, and only it changes the tables.
-/
namespace KaChatIndexer.KaFreshness
open ByteStrings KaText KaActions KaStore KaHandlers KaSample Interleaving Interleaving.Prog

variable {env : Env} {outputs : Bytes → Option (Option (List TxOutput))}

/-! ## The other statements leave the used signatures alone -/

section
variable (db : Db)

@[simp] theorem used_insertContent (row : Content) (mentions : List Mention) :
    (db.insertContent row mentions).2.usedSignatures = db.usedSignatures := by
  unfold Db.insertContent
  split <;> rfl

@[simp] theorem used_insertPoll (row : Poll) :
    (db.insertPoll row).usedSignatures = db.usedSignatures := by
  unfold Db.insertPoll
  split <;> rfl

@[simp] theorem used_insertMention (row : Mention) :
    (db.insertMention row).usedSignatures = db.usedSignatures := rfl

@[simp] theorem used_insertEditMention (row : Mention) :
    (db.insertEditMention row).usedSignatures = db.usedSignatures := by
  unfold Db.insertEditMention
  split <;> rfl

@[simp] theorem used_insertEdit (row : Edit) :
    (db.insertEdit row).usedSignatures = db.usedSignatures := by
  unfold Db.insertEdit
  split <;> rfl

@[simp] theorem used_updateContent (id : Bytes) (message : Text) (time : ℤ) :
    (db.updateContent id message time).2.usedSignatures = db.usedSignatures := rfl

@[simp] theorem used_insertTombstone (row : Deletion) :
    (db.insertTombstone row).usedSignatures = db.usedSignatures := by
  unfold Db.insertTombstone
  split <;> rfl

@[simp] theorem used_insertDelete (row : Deletion) :
    (db.insertDelete row).usedSignatures = db.usedSignatures := by
  unfold Db.insertDelete
  split <;> rfl

@[simp] theorem used_hardDelete (id author : Bytes) :
    (db.hardDeleteContent id author).usedSignatures = db.usedSignatures := rfl

@[simp] theorem used_deleteQuotes (content sender : Bytes) :
    (db.deleteQuotes content sender).usedSignatures = db.usedSignatures := rfl

@[simp] theorem used_deleteVotes (post sender : Bytes) :
    (db.deleteVotes post sender).usedSignatures = db.usedSignatures := rfl

@[simp] theorem used_commitVote (row : Vote) (mention : Mention) (replaced : List Bytes) :
    (db.commitVote row mention replaced).usedSignatures = db.usedSignatures := by
  unfold Db.commitVote
  dsimp only
  split <;> rfl

@[simp] theorem used_insertPollVote (row : PollVote) :
    (db.insertPollVote row).usedSignatures = db.usedSignatures := by
  unfold Db.insertPollVote
  split <;> rfl

@[simp] theorem used_insertTip (row : Tip) (mention : Mention) :
    (db.insertTip row mention).usedSignatures = db.usedSignatures := by
  unfold Db.insertTip
  split <;> rfl

@[simp] theorem used_upsertRelationLast (kind : RelationKind) (sender target : Bytes)
    (action : Text) (time : ℤ) :
    (db.upsertRelationLast kind sender target action time).2.usedSignatures = db.usedSignatures := by
  unfold Db.upsertRelationLast
  split
  · rfl
  · split <;> rfl

@[simp] theorem used_insertRelation (kind : RelationKind) (row : Relation) :
    (db.insertRelation kind row).usedSignatures = db.usedSignatures := by
  unfold Db.insertRelation
  split <;> rfl

@[simp] theorem used_deleteRelation (kind : RelationKind) (sender target : Bytes) (time : ℤ) :
    (db.deleteRelation kind sender target time).usedSignatures = db.usedSignatures := rfl

@[simp] theorem used_insertDenied (key : Text) :
    (db.insertDenied key).usedSignatures = db.usedSignatures := by
  unfold Db.insertDenied
  split <;> rfl

@[simp] theorem used_removeDenied (key : Text) :
    (db.removeDenied key).usedSignatures = db.usedSignatures := rfl

@[simp] theorem used_purge (target : Bytes) :
    (db.purge target).usedSignatures = db.usedSignatures := rfl

@[simp] theorem used_commitBroadcast (row : Broadcast) (replaced : Option (List Bytes)) :
    (db.commitBroadcast row replaced).usedSignatures = db.usedSignatures := by
  have hrecord : (db.recordBroadcastSignature row.senderSignature row.transactionId).usedSignatures
      = db.usedSignatures := by
    unfold Db.recordBroadcastSignature
    split <;> rfl
  cases replaced <;> exact hrecord

end

theorem usedBy_insertUsed (db : Db) (signature id other : Bytes) :
    (db.insertUsed signature id).2.usedBy other =
      if other = signature ∧ db.usedBy signature = none then some id else db.usedBy other := by
  unfold Db.insertUsed
  cases h : db.usedBy signature with
  | some first => simp
  | none =>
    by_cases ho : other = signature
    · simp [ho, Db.usedBy]
    · simp [ho, Db.usedBy, List.lookup_cons, beq_eq_false_iff_ne.mpr ho]

/-! ## The contract -/

/-- What a statement in the past says of the used signatures. -/
def Told (env : Env) (transaction : Transaction) : Sql → Db → Prop
  | .passed signature id, db => transaction.signature env = some signature ∧
      transaction.transactionId = id ∧ db.usedBy signature = some id
  | .replayed signature id, db => ∃ first, db.usedBy signature = some first ∧ first ≠ id
  | .missed _ _, _ => False
  | ev, db => ev.carriesOut = true → ∃ signature, transaction.signature env = some signature ∧
      db.usedBy signature = some transaction.transactionId

def freshness (env : Env) : Contract Db Sql Transaction where
  rely s t := ∀ signature id, s.usedBy signature = some id → t.usedBy signature = some id
  inv _ := True
  told := Told env
  refl _ _ _ h := h
  trans _ _ _ hst htu signature id h := htu signature id (hst signature id h)
  inv_rely _ _ _ h := h
  told_rely transaction ev s t hst h := by
    have carried {signature : Bytes} (hs : transaction.signature env = some signature ∧
        s.usedBy signature = some transaction.transactionId) :
        ∃ signature, transaction.signature env = some signature ∧
          t.usedBy signature = some transaction.transactionId :=
      ⟨signature, hs.1, hst _ _ hs.2⟩
    cases ev with
    | passed => exact ⟨h.1, h.2.1, hst _ _ h.2.2⟩
    | replayed => exact h.imp fun first hfirst => ⟨hst _ _ hfirst.1, hfirst.2⟩
    | missed => exact h
    | _ => exact fun hev => (h hev).elim fun _ hs => carried hs

theorem freshness_insert (env : Env) (s : Db) (signature id : Bytes) :
    (freshness env).rely s (s.insertUsed signature id).2 := by
  intro other first h
  rw [usedBy_insertUsed]
  split
  · next hc => rw [hc.1, hc.2] at h; cases h
  · exact h

theorem usedBy_of_insertUsed (s : Db) (signature id : Bytes) :
    (s.insertUsed signature id).1 = true ∧
        (s.insertUsed signature id).2.usedBy signature = some id ∨
      (s.insertUsed signature id).1 = false ∧
        ∃ first, (s.insertUsed signature id).2.usedBy signature = some first := by
  unfold Db.insertUsed
  cases h : s.usedBy signature with
  | some first => exact .inr ⟨rfl, first, h⟩
  | none => exact .inl ⟨rfl, by simp [Db.usedBy]⟩

section
variable {may : Sql → Db → Prop} {transaction : Transaction} {s : Db}

theorem judge_safe {signature first : Bytes} (hsig : transaction.signature env = some signature)
    (h : s.usedBy signature = some first) :
    (freshness env).Safe may transaction
      (fun b t => b = true → t.usedBy signature = some transaction.transactionId)
      (judgeSignature signature transaction.transactionId (some first)) s := by
  simp only [judgeSignature]
  split
  · next hfirst =>
    subst hfirst
    exact fun t hst _ _ => ⟨(freshness env).refl t, ⟨hsig, rfl, hst _ _ h⟩,
      fun u htu _ _ => htu _ _ (hst _ _ h)⟩
  · next hne =>
    exact fun t hst _ _ => ⟨(freshness env).refl t, ⟨first, hst _ _ h, hne⟩,
      fun u _ _ hb => absurd hb Bool.false_ne_true⟩

/-- A check passes only for the transaction of the entry, and always finds an entry. -/
theorem fresh_safe {signature : Bytes} (hsig : transaction.signature env = some signature) :
    (freshness env).Safe may transaction
      (fun b t => b = true → t.usedBy signature = some transaction.transactionId)
      (signatureIsFresh signature transaction.transactionId) s := by
  intro t _ _ _
  refine ⟨(freshness env).refl t, nofun, fun u htu _ _ => ⟨freshness_insert env u _ _, nofun, ?_⟩⟩
  rcases usedBy_of_insertUsed u signature transaction.transactionId with ⟨hin, hentry⟩ | ⟨hin, first, hentry⟩
  · simp only [hin]
    exact judge_safe hsig hentry
  · simp only [hin]
    cases hseen : t.usedBy signature with
    | some seen =>
      -- the snapshot had the entry, which no statement has changed since
      exact judge_safe hsig (freshness_insert env u _ _ _ _ (htu _ _ hseen))
    | none =>
      intro v huv _ _
      refine ⟨(freshness env).refl v, nofun, ?_⟩
      have hfirst : v.usedBy signature = some first := huv _ _ hentry
      simp only [hfirst]
      exact judge_safe hsig hfirst

/-- The log lines of the check. -/
def Judges : Sql → Bool
  | .passed _ _ | .replayed _ _ | .missed _ _ => true
  | _ => false

theorem told_of_carried {ev : Sql} {t : Db} (hev : Judges ev = false)
    (h : ev.carriesOut = true → ∃ signature, transaction.signature env = some signature ∧
      t.usedBy signature = some transaction.transactionId) : Told env transaction ev t := by
  cases ev with
  | passed | replayed | missed => cases hev
  | _ => exact h

/-- What does not touch the used signatures keeps to the contract once the signature has passed. -/
theorem frame_safe {α : Type} {p : Worker α} {ok : Sql → Prop} {post : α → Db → Prop}
    (hp : p.Frame ok Db.usedSignatures) (hjudge : ∀ ev, ok ev → Judges ev = false)
    (hcarry : ∀ ev, ok ev → ev.carriesOut = true → ∃ signature,
      transaction.signature env = some signature ∧
        s.usedBy signature = some transaction.transactionId) (hpost : ∀ a t, post a t) :
    (freshness env).Safe may transaction post p s := by
  induction p generalizing s with
  | done a => exact fun t _ _ => hpost a t
  | step ev write next ih =>
    intro t hst _ _
    have hsame : ∀ signature, (write t).usedBy signature = t.usedBy signature := fun signature => by
      unfold Db.usedBy
      rw [(hp.2 t).1]
    have hcarry' : ∀ ev', ok ev' → ev'.carriesOut = true → ∃ signature,
        transaction.signature env = some signature ∧
          (write t).usedBy signature = some transaction.transactionId := fun ev' hok hev =>
      (hcarry ev' hok hev).imp fun signature h => ⟨h.1, by rw [hsame]; exact hst _ _ h.2⟩
    refine ⟨fun signature id h => by rw [hsame]; exact h, ?_, ih t (hp.2 t).2 hcarry'⟩
    exact told_of_carried (hjudge ev hp.1) (hcarry' ev hp.1)

/-- The statements a handler runs once its signature has passed. -/
def Carries (ev : Sql) : Prop := Judges ev = false

/-- The statements it may run before that, or after a failed check. -/
def Looks (ev : Sql) : Prop := Judges ev = false ∧ ev.carriesOut = false

theorem looks_safe {α : Type} {p : Worker α} {post : α → Db → Prop}
    (hp : p.Frame Looks Db.usedSignatures) (hpost : ∀ a t, post a t) :
    (freshness env).Safe may transaction post p s :=
  frame_safe hp (fun _ h => h.1) (fun _ h hev => absurd (h.2 ▸ hev) Bool.false_ne_true) hpost

/-- A handler that runs its statements only after the check keeps to the contract. -/
theorem checked_safe {message signature pubkey : Text} {rest : Worker Unit}
    (hsig : transaction.signature env = hexDecode signature)
    (hrest : rest.Frame Carries Db.usedSignatures) :
    (freshness env).Safe may transaction (fun _ _ => True)
      (checkSignature env message signature pubkey transaction >>= fun fresh =>
        if (!fresh) = true then pure () else rest) s := by
  have hdone (s : Db) : (freshness env).Safe may transaction (fun _ _ => True)
      (done () : Worker Unit) s := fun _ _ _ => trivial
  unfold checkSignature
  split
  · split
    · next sig hdecode =>
      refine (fresh_safe (hsig.trans hdecode)).bind fun fresh t _ hfresh => ?_
      cases fresh with
      | false => exact hdone t
      | true =>
        refine frame_safe hrest (fun _ h => h) (fun ev _ _ => ?_) fun _ _ => trivial
        exact ⟨sig, hsig.trans hdecode, hfresh rfl⟩
    · exact hdone s
  · exact hdone s

end

/-! ## Every handler checks first -/

section
variable {may : Sql → Db → Prop} {transaction : Transaction} {s : Db}

theorem carries_mentions (row : Content) (keys : List Text) :
    (insertPollMentions row keys).Frame Carries Db.usedSignatures := by
  induction keys with
  | nil => trivial
  | cons key keys ih =>
    unfold insertPollMentions
    split
    · exact ih
    · exact .execute_bind rfl (fun db => used_insertMention db _) ih

theorem carries_editMentions (post : Bytes) (type : MentionType) (time : ℤ) (sender : Bytes)
    (keys : List Text) :
    (insertEditMentions post type time sender keys).Frame Carries Db.usedSignatures := by
  induction keys with
  | nil => trivial
  | cons key keys ih =>
    unfold insertEditMentions
    split
    · exact ih
    · exact .execute_bind rfl (fun db => used_insertEditMention db _) ih

theorem carries_poll (row : Content) (poll : Poll) (keys : List Text) :
    (storePoll row poll keys).Frame Carries Db.usedSignatures := by
  refine .stmt_bind rfl fun db => ⟨used_insertContent db row [], ?_⟩
  split
  · trivial
  · exact .execute_bind rfl (fun db => used_insertPoll db poll) (carries_mentions row keys)

theorem carries_edit (row : Edit) (keys : List Text) :
    (applyEdit row keys).Frame Carries Db.usedSignatures := by
  refine .query_bind rfl fun original => ?_
  repeat' split
  all_goals try trivial
  refine .execute_bind rfl (fun db => used_insertEdit db row) (.stmt_bind rfl fun db => ⟨rfl, ?_⟩)
  split
  · trivial
  · exact carries_editMentions _ _ _ _ _

theorem carries_delete (row : Deletion) : (applyDelete row).Frame Carries Db.usedSignatures := by
  refine .execute_bind rfl (fun db => used_insertTombstone db row)
    (.query_bind rfl fun original => ?_)
  repeat' split
  all_goals try trivial
  exact .execute_bind rfl (fun db => used_insertDelete db row) (by simp [Carries, Judges])

theorem carries_vote (row : Vote) (mention : Mention) :
    (storeVote row mention).Frame Carries Db.usedSignatures := by
  refine .query_bind rfl fun target => ?_
  split
  · trivial
  · exact .query_bind rfl fun replaced => by simp [Carries, Judges]

theorem carries_pollVote (row : PollVote) :
    (storePollVote row).Frame Carries Db.usedSignatures := by
  refine .query_bind rfl fun poll => ?_
  repeat' split
  all_goals simp [Carries, Judges]

theorem carries_tip (outputs : Option (Option (List TxOutput))) (author : Bytes) (row : Tip) :
    (storeTip outputs author row).Frame Carries Db.usedSignatures := by
  refine .query_bind rfl fun target => ?_
  repeat' split
  all_goals try trivial
  dsimp only
  split
  · trivial
  · simp [Carries, Judges]

theorem carries_newest (kind : RelationKind) (row : Relation) (action : Text) {rest : Worker Unit}
    (hrest : rest.Frame Carries Db.usedSignatures) :
    (relationIsNewest kind row.senderPubkey row.targetPubkey action row.blockTime >>= fun newest =>
      if (!newest) = true then pure () else rest).Frame Carries Db.usedSignatures := by
  refine .stmt_bind rfl fun db => ⟨used_upsertRelationLast db _ _ _ _ _, ?_⟩
  split
  · trivial
  · exact hrest

theorem carries_follow (row : Relation) (action : Text) :
    (follow row action).Frame Carries Db.usedSignatures := by
  refine .query_bind rfl fun related => ?_
  split
  · trivial
  · exact carries_newest _ _ _ (by simp [insertRelation, Carries, Judges])

theorem carries_unfollow (row : Relation) (action : Text) :
    (unfollow row action).Frame Carries Db.usedSignatures :=
  carries_newest _ _ _ (by simp [deleteRelation, Carries, Judges])

theorem carries_block (row : Relation) (action : Text) (targetHex : Option Text) :
    (block row action targetHex).Frame Carries Db.usedSignatures := by
  refine carries_newest _ _ _ (.execute_bind rfl (fun db => used_insertRelation db _ _) ?_)
  split
  · exact .execute_bind rfl (fun db => used_insertDenied db _) (by simp [Carries, Judges])
  · trivial

theorem carries_unblock (row : Relation) (action : Text) (targetHex : Option Text) :
    (unblock row action targetHex).Frame Carries Db.usedSignatures := by
  refine carries_newest _ _ _ (.execute_bind rfl (fun db => used_deleteRelation db _ _ _ _) ?_)
  split
  · simp [Carries, Judges]
  · trivial

theorem carries_broadcast (row : Broadcast) :
    (storeBroadcast row).Frame Carries Db.usedSignatures := by
  refine .query_bind rfl fun replay => ?_
  split
  · trivial
  · exact .query_bind rfl fun seen => by simp [Carries, Judges]

theorem looks_deletedByAuthor (author : Text) :
    (deletedByAuthor transaction author).Frame Looks Db.usedSignatures := by
  unfold deletedByAuthor
  split <;> simp [Looks, Judges, Sql.carriesOut]

theorem looks_dropIfDeleted (author : Text) :
    (dropIfDeleted transaction author).Frame Looks Db.usedSignatures := by
  refine (looks_deletedByAuthor author).bind fun deleted => ?_
  repeat' split
  all_goals simp [Looks, Judges, Sql.carriesOut]

theorem saveUnlessDeleted_safe {author : Text} {save : Worker Unit}
    (hsave : ∀ t, (freshness env).Safe may transaction (fun _ _ => True) save t) :
    (freshness env).Safe may transaction (fun _ _ => True)
      (saveUnlessDeleted transaction author save) s := by
  have hlook : (freshness env).Safe may transaction (fun _ _ => True)
      (deletedByAuthor transaction author) s :=
    looks_safe (looks_deletedByAuthor author) fun _ _ => trivial
  refine hlook.bind fun deleted t _ _ => ?_
  split
  · exact fun _ _ _ => trivial
  · exact (hsave t).bind fun _ _ _ _ =>
      looks_safe (looks_dropIfDeleted author) fun _ _ => trivial

theorem action_safe {action : KAction} (haction : transaction.action env = some action) :
    (freshness env).Safe may transaction (fun _ _ => True)
      (processAction env outputs transaction action) s := by
  have hsig : transaction.signature env = hexDecode action.senderSignature := by
    simp [Transaction.signature, haction]
  cases action with
  | post k =>
    refine saveUnlessDeleted_safe fun t => checked_safe hsig ?_
    repeat' split
    all_goals simp [Carries, Judges]
  | reply k =>
    refine saveUnlessDeleted_safe fun t => checked_safe hsig ?_
    repeat' split
    all_goals simp [Carries, Judges]
  | quote k =>
    refine saveUnlessDeleted_safe fun t => checked_safe hsig ?_
    repeat' split
    all_goals simp [Carries, Judges]
  | poll k =>
    refine saveUnlessDeleted_safe fun t => checked_safe hsig ?_
    repeat' split
    all_goals first | trivial | exact carries_poll _ _ _
  | edit k =>
    refine checked_safe hsig ?_
    repeat' split
    all_goals first | trivial | exact carries_edit _ _
  | delete k =>
    refine checked_safe hsig ?_
    repeat' split
    all_goals first | trivial | exact carries_delete _
  | unquote k =>
    refine checked_safe hsig ?_
    repeat' split
    all_goals simp [Carries, Judges]
  | vote k =>
    refine checked_safe hsig ?_
    repeat' split
    all_goals first | trivial | exact carries_vote _ _ | simp [Carries, Judges]
  | pollVote k =>
    refine checked_safe hsig ?_
    repeat' split
    all_goals first | trivial | exact carries_pollVote _
  | tip k =>
    refine checked_safe hsig ?_
    repeat' split
    all_goals first | trivial | exact carries_tip _ _ _
  | follow k =>
    refine checked_safe hsig ?_
    repeat' split
    all_goals first | trivial | exact carries_follow _ _ | exact carries_unfollow _ _
  | block k =>
    refine checked_safe hsig ?_
    repeat' split
    all_goals first | trivial | exact carries_block _ _ _ | exact carries_unblock _ _ _
  | broadcast k =>
    show (freshness env).Safe may transaction _ (saveKBroadcastToDatabase env transaction k) s
    unfold saveKBroadcastToDatabase
    split
    · exact fun _ _ _ => trivial
    · refine checked_safe hsig ?_
      repeat' split
      all_goals first | trivial | exact carries_broadcast _
  | unknown => exact fun _ _ _ => trivial

theorem process_safe : (freshness env).Safe may transaction (fun _ _ => True)
    (processKTransaction env outputs transaction) s := by
  unfold processKTransaction
  split
  · exact fun _ _ _ => trivial
  · next action haction =>
    have hdenied : (isKapostsDenied action).Frame Looks Db.usedSignatures := by
      unfold isKapostsDenied
      split <;> simp [Looks, Judges, Sql.carriesOut]
    have hlook : (freshness env).Safe may transaction (fun _ _ => True) (isKapostsDenied action) s :=
      looks_safe hdenied fun _ _ => trivial
    refine hlook.bind fun denied t _ _ => ?_
    split
    · exact fun _ _ _ => trivial
    · exact action_safe haction

end

/-- Every statement run so far has told the truth. -/
theorem told {s : Db} {w : World Db Sql Transaction} (h : (processor env outputs).Reaches s w)
    {transaction : Transaction} {ev : Sql} (hev : (transaction, ev) ∈ w.trace) :
    Told env transaction ev w.state := by
  have hsafe (i : Transaction) (t : Db) : (freshness env).Safe (fun _ _ => True) i (fun _ _ => True)
      (processKTransaction env outputs i) t := process_safe
  exact (h.safe (freshness env) trivial fun i t _ _ => hsafe i t).2.2.1 (transaction, ev) hev

theorem told_carried {db : Db} {transaction : Transaction} {ev : Sql}
    (h : Told env transaction ev db) (hev : ev.carriesOut = true) :
    ∃ signature, transaction.signature env = some signature ∧
      db.usedBy signature = some transaction.transactionId := by
  cases ev <;> first | exact h hev | cases hev

/-- The workers' statements in some order, for any transactions: one transaction gets past the check
with a signature, and gets past it whenever it is processed; only it carries out what it signs. -/
theorem one_transaction_per_signature {s : Db} {w : World Db Sql Transaction}
    (h : (processor env outputs).Reaches s w) :
    (∀ i signature id, (i, .passed signature id) ∈ w.trace →
      i.signature env = some signature ∧ i.transactionId = id) ∧
    (∀ i j signature id id', (i, .passed signature id) ∈ w.trace →
      (j, .passed signature id') ∈ w.trace → id = id') ∧
    (∀ i j signature id, (i, .passed signature id) ∈ w.trace →
      (j, .replayed signature id) ∉ w.trace) ∧
    (∀ j signature id, (j, .missed signature id) ∉ w.trace) ∧
    ∀ i j ev ev', (i, ev) ∈ w.trace → (j, ev') ∈ w.trace → ev.carriesOut = true →
      ev'.carriesOut = true → i.signature env = j.signature env →
      i.transactionId = j.transactionId := by
  refine ⟨fun i signature id hi => ⟨(told h hi).1, (told h hi).2.1⟩,
    fun i j signature id id' hi hj => ?_, fun i j signature id hi hj => ?_,
    fun j signature id hj => told h hj, fun i j ev ev' hi hj hev hev' hsig => ?_⟩
  · exact Option.some.inj ((told h hi).2.2.symm.trans (told h hj).2.2)
  · obtain ⟨first, hfirst, hne⟩ := told h hj
    exact hne (Option.some.inj (hfirst.symm.trans (told h hi).2.2))
  · obtain ⟨signature, hs, hused⟩ := told_carried (told h hi) hev
    obtain ⟨signature', hs', hused'⟩ := told_carried (told h hj) hev'
    obtain rfl : signature = signature' := Option.some.inj (hs.symm.trans (hsig.trans hs'))
    exact Option.some.inj (hused.symm.trans hused')

def copied (id : UInt8) : Transaction :=
  sample id 5 ["unquote".toList, sampleKey '2' '1', sampleSignature 'a', "ab".toList]

/-- The second transaction copies the first; its snapshot comes before the first one's insert. -/
def copySchedule : List (Act Transaction) :=
  [.deliver (copied 1), .deliver (copied 2)] ++ statements [(0, 2), (1, 2), (0, 3), (1, 3)]

theorem copySchedule_runs : ∃ w, run (processKTransaction sampleEnv noOutputs)
    (fun _ _ _ => true) copySchedule (.start Db.empty) = some w ∧
    (w.trace.any fun e => e.2 = .passed (List.replicate 64 0xaa) [1]) = true ∧
    (w.trace.any fun e => e.2 = .replayed (List.replicate 64 0xaa) [2]) = true := by
  have h : ((run (processKTransaction sampleEnv noOutputs) (fun _ _ _ => true) copySchedule
      (.start Db.empty)).map fun w => (w.trace.any fun e => e.2 = .passed (List.replicate 64 0xaa) [1]) &&
        (w.trace.any fun e => e.2 = .replayed (List.replicate 64 0xaa) [2])) = some true := by
    decide +kernel
  obtain ⟨w, hw, hboth⟩ := Option.map_eq_some_iff.mp h
  exact ⟨w, hw, Bool.and_eq_true_iff.mp hboth⟩

theorem one_transaction_copied : ∃ w, run (processKTransaction sampleEnv noOutputs)
    (fun _ _ _ => true) copySchedule (.start Db.empty) = some w ∧
    (w.trace.any fun e => e.2 = .replayed (List.replicate 64 0xaa) [2]) = true ∧
    ∀ i j ev ev', (i, ev) ∈ w.trace → (j, ev') ∈ w.trace → ev.carriesOut = true →
      ev'.carriesOut = true → i.signature sampleEnv = j.signature sampleEnv →
      i.transactionId = j.transactionId := by
  obtain ⟨w, hw, -, hreplayed⟩ := copySchedule_runs
  have hreaches : (processor sampleEnv noOutputs).Reaches Db.empty w :=
    System.Reaches.start.run (fun _ _ => trivial) (fun _ _ _ _ => trivial) hw
  exact ⟨w, hw, hreplayed, (one_transaction_per_signature hreaches).2.2.2.2⟩

end KaChatIndexer.KaFreshness

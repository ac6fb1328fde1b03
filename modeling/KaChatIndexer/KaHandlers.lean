import KaChatIndexer.Interleaving
import KaChatIndexer.KaStore

/-!
# The handlers of K actions

What a worker does for a transaction, statement by statement. Other workers run between any two
statements. Pushes and log lines are left out, but for those that say how a signature was judged.
-/
namespace KaChatIndexer.KaHandlers
open ByteStrings KaText KaActions KaStore Interleaving Interleaving.Prog

abbrev Worker (α : Type) := Prog Db Sql α

/-- The end of the check, once the transaction that first carried the signature is read; `fetch_one`
fails when there is none. -/
def judgeSignature (signature transactionId : Bytes) : Option Bytes → Worker Bool
  | none => do
    execute (.missed signature transactionId) id
    pure false
  | some first =>
    if first = transactionId then do
      execute (.passed signature transactionId) id
      pure true
    else do
      execute (.replayed signature transactionId) id
      pure false

/-- The insert and the read are one statement, whose read has the snapshot of its start; a second
read follows only when the row came in between. -/
def signatureIsFresh (signature transactionId : Bytes) : Worker Bool := do
  let seen ← query .usedSnapshot (·.usedBy signature)
  if ← stmt .usedInsert (Db.insertUsed signature transactionId) then
    judgeSignature signature transactionId (some transactionId)
  else match seen with
    | some first => judgeSignature signature transactionId (some first)
    | none => do
      let first ← query .usedSelect (·.usedBy signature)
      judgeSignature signature transactionId first

/-- Every handler starts so: the signature verifies over the action's signed string and is fresh. -/
def checkSignature (env : Env) (message signature pubkey : Text) (transaction : Transaction) :
    Worker Bool :=
  if verifyKaspaSignature env message signature pubkey then
    match hexDecode signature with
    | some signature => signatureIsFresh signature transaction.transactionId
    | none => pure false
  else pure false

/-! ## Contents -/

/-- The row of a content, its fields decoded. -/
def contentRow (transaction : Transaction) (pubkey signature message : Text) (type : ContentType)
    (referenced : Option Bytes) : Option Content :=
  (hexDecode pubkey).bind fun sender => (hexDecode signature).map fun signature =>
    ⟨transaction.transactionId, transaction.time, sender, signature, message, type, referenced, none⟩

/-- `02+x` and `03+x` are the same user: the first mention of each x-only key stays. -/
def dedupeXonly (keys : List Bytes) : List Bytes :=
  let xonly (key : Bytes) : Bytes := if key.length = 33 then key.drop 1 else key
  (keys.reverse.pwFilter fun a b => xonly a ≠ xonly b).reverse

def contentMentions (row : Content) (type : MentionType) (keys : List Bytes) : List Mention :=
  keys.map fun key => ⟨row.transactionId, type, key, row.blockTime, row.senderPubkey⟩

def saveKPostToDatabase (env : Env) (transaction : Transaction) (k : KPost) : Worker Unit := do
  if !(← checkSignature env (KAction.post k).signingString k.senderSignature k.senderPubkey
      transaction) then return
  if !(validateKachatMessage k.base64EncodedMessage).isOk then return
  let some row := contentRow transaction k.senderPubkey k.senderSignature k.base64EncodedMessage
    .post none | return
  let some mentioned := (if k.isKchat then k.mentionedPubkeys else []).mapM hexDecode | return
  let _ ← stmt (.contentInsert row.transactionId)
    (Db.insertContent row (contentMentions row .post (dedupeXonly mentioned)))

def saveKReplyToDatabase (env : Env) (transaction : Transaction) (k : KReply) : Worker Unit := do
  if !(← checkSignature env (KAction.reply k).signingString k.senderSignature k.senderPubkey
      transaction) then return
  if !(validateKachatMessage k.base64EncodedMessage).isOk then return
  let some post := hexDecode k.postId | return
  let some row := contentRow transaction k.senderPubkey k.senderSignature k.base64EncodedMessage
    .reply post | return
  let some mentioned := k.mentionedPubkeys.mapM hexDecode | return
  let _ ← stmt (.contentInsert row.transactionId)
    (Db.insertContent row (contentMentions row .reply (dedupeXonly mentioned)))

def saveKQuoteToDatabase (env : Env) (transaction : Transaction) (k : KQuote) : Worker Unit := do
  if !(← checkSignature env (KAction.quote k).signingString k.senderSignature k.senderPubkey
      transaction) then return
  if !(validateKachatMessage k.base64EncodedMessage).isOk then return
  let some content := hexDecode k.contentId | return
  let some row := contentRow transaction k.senderPubkey k.senderSignature k.base64EncodedMessage
    .quote content | return
  let some mentioned := hexDecode k.mentionedPubkey | return
  let _ ← stmt (.contentInsert row.transactionId)
    (Db.insertContent row (contentMentions row .quote [mentioned]))

/-- The options of a poll, decoded: two to four, each of 1 to 40 characters, no two the same. -/
def pollOptions (csv : Text) : Option (List Text) :=
  let options := csv.splitOn ','
  if options.length < 2 ∨ 4 < options.length then none
  else
    (options.mapM fun option => ((base64Decode (trim option)).bind utf8Decode).filter fun text =>
      1 ≤ text.length ∧ text.length ≤ 40).filter fun texts => texts.Nodup

def sevenDaysMs : ℤ := 604800000

/-- A poll mentions one key after another; a key that does not decode is passed over. -/
def insertPollMentions (row : Content) : List Text → Worker Unit
  | [] => pure ()
  | key :: keys =>
    match hexDecode key with
    | none => insertPollMentions row keys
    | some key => do
      execute (.pollMentionInsert row.transactionId)
        (Db.insertMention ⟨row.transactionId, .post, key, row.blockTime, row.senderPubkey⟩)
      insertPollMentions row keys

/-- The question is a content; the options and the mentions follow when it is new. -/
def storePoll (row : Content) (poll : Poll) (mentioned : List Text) : Worker Unit := do
  if !(← stmt (.contentInsert row.transactionId) (Db.insertContent row [])) then return
  execute (.pollInsert row.transactionId) (Db.insertPoll poll)
  insertPollMentions row mentioned

def processKPollInDatabase (env : Env) (transaction : Transaction) (k : KPoll) : Worker Unit := do
  if !(← checkSignature env (KAction.poll k).signingString k.senderSignature k.senderPubkey
      transaction) then return
  if !(validateKachatMessage k.base64EncodedQuestion).isOk then return
  if (pollOptions k.optionsB64Csv).isNone then return
  if k.closesAtMs ≤ transaction.time ∨ transaction.time + sevenDaysMs < k.closesAtMs then return
  let some row := contentRow transaction k.senderPubkey k.senderSignature k.base64EncodedQuestion
    .poll none | return
  storePoll row ⟨row.transactionId, k.optionsB64Csv, k.closesAtMs, row.blockTime⟩
    (if k.isKchat then k.mentionedPubkeys else [])

/-! ## Edits and deletes -/

def editWindowMs : ℤ := 7200000

/-- How an edit's mentions are typed, by what it edits. -/
def editMentionType : ContentType → MentionType
  | .reply => .reply
  | .quote => .quote
  | _ => .post

/-- An edit mentions one key after another; a key that does not decode is passed over. -/
def insertEditMentions (post : Bytes) (type : MentionType) (time : ℤ) (sender : Bytes) :
    List Text → Worker Unit
  | [] => pure ()
  | key :: keys =>
    match hexDecode key with
    | none => insertEditMentions post type time sender keys
    | some key => do
      execute (.editMentionInsert post) (Db.insertEditMention ⟨post, type, key, time, sender⟩)
      insertEditMentions post type time sender keys

/-- An edit of an indexed content that is not a poll, by its author, within the window. -/
def applyEdit (row : Edit) (mentioned : List Text) : Worker Unit := do
  let some original ← query .contentSelect (·.content row.postId) | return
  if original.contentType = .poll then return
  if original.senderPubkey ≠ row.senderPubkey then return
  if original.blockTime + editWindowMs < row.blockTime then return
  execute (.editInsert row.postId) (Db.insertEdit row)
  if !(← stmt (.contentUpdate row.postId)
      (Db.updateContent row.postId row.base64EncodedMessage row.blockTime)) then return
  insertEditMentions row.postId (editMentionType original.contentType) row.blockTime
    row.senderPubkey mentioned

def processKEditInDatabase (env : Env) (transaction : Transaction) (k : KEdit) : Worker Unit := do
  if !(← checkSignature env (KAction.edit k).signingString k.senderSignature k.senderPubkey
      transaction) then return
  if !(validateKachatMessage k.base64EncodedMessage).isOk then return
  let some sender := hexDecode k.senderPubkey | return
  let some signature := hexDecode k.senderSignature | return
  let some post := hexDecode k.postId | return
  applyEdit ⟨transaction.transactionId, transaction.time, sender, signature, post,
    k.base64EncodedMessage⟩ (if k.isKchat then k.mentionedPubkeys else [])

/-- The tombstone first, whether or not the content is indexed yet. -/
def applyDelete (row : Deletion) : Worker Unit := do
  execute (.tombstoneInsert row.postId) (Db.insertTombstone row)
  let some original ← query .contentSelect (·.content row.postId) | return
  if original.senderPubkey ≠ row.senderPubkey then return
  execute (.deleteInsert row.postId) (Db.insertDelete row)
  execute (.hardDelete row.postId) (Db.hardDeleteContent row.postId row.senderPubkey)

def processKDeleteInDatabase (env : Env) (transaction : Transaction) (k : KDelete) :
    Worker Unit := do
  if !(← checkSignature env (KAction.delete k).signingString k.senderSignature k.senderPubkey
      transaction) then return
  let some sender := hexDecode k.senderPubkey | return
  let some post := hexDecode k.postId | return
  applyDelete ⟨transaction.transactionId, transaction.time, sender, post⟩

/-- Whether the content's own author has signed a delete for it. -/
def deletedByAuthor (transaction : Transaction) (authorHex : Text) : Worker Bool :=
  match hexDecode authorHex with
  | none => pure false
  | some author => query .tombstoneSelect (·.hasTombstone transaction.transactionId author)

/-- Asked again after saving. -/
def dropIfDeleted (transaction : Transaction) (authorHex : Text) : Worker Unit := do
  if ← deletedByAuthor transaction authorHex then
    let some author := hexDecode authorHex | return
    execute (.dropDeleted transaction.transactionId)
      (Db.hardDeleteContent transaction.transactionId author)

/-- A content is saved between two looks for its author's delete. -/
def saveUnlessDeleted (transaction : Transaction) (authorHex : Text) (save : Worker Unit) :
    Worker Unit := do
  if ← deletedByAuthor transaction authorHex then return
  save
  dropIfDeleted transaction authorHex

def processKUnquoteInDatabase (env : Env) (transaction : Transaction) (k : KUnquote) :
    Worker Unit := do
  if !(← checkSignature env (KAction.unquote k).signingString k.senderSignature k.senderPubkey
      transaction) then return
  let some sender := hexDecode k.senderPubkey | return
  let some content := hexDecode k.contentId | return
  execute (.quotesDelete content) (Db.deleteQuotes content sender)

/-! ## Votes and tips -/

/-- A vote on an indexed content replaces the key's earlier one, in one database transaction. -/
def storeVote (row : Vote) (mention : Mention) : Worker Unit := do
  if (← query .contentSelect (·.content row.postId)).isNone then return
  let replaced ← query .votesSelect (Db.replacedVotes row)
  execute (.voteCommit row.postId) (Db.commitVote row mention (replaced.map (·.transactionId)))

def saveKVoteToDatabase (env : Env) (transaction : Transaction) (k : KVote) : Worker Unit := do
  if !(← checkSignature env (KAction.vote k).signingString k.senderSignature k.senderPubkey
      transaction) then return
  let some sender := hexDecode k.senderPubkey | return
  let some post := hexDecode k.postId | return
  if k.vote = "unvote".toList then
    execute (.votesDelete post) (Db.deleteVotes post sender)
  else
    let some signature := hexDecode k.senderSignature | return
    let some mentioned := hexDecode k.mentionedPubkey | return
    storeVote ⟨transaction.transactionId, transaction.time, sender, signature, post, k.vote⟩
      ⟨transaction.transactionId, .vote, mentioned, transaction.time, sender⟩

/-- A vote for an option of an indexed poll that is still open. -/
def storePollVote (row : PollVote) : Worker Unit := do
  let some poll ← query .pollSelect (fun db => db.polls.find? (·.postId = row.pollId)) | return
  if row.optionIndex < 0 ∨ (poll.options.splitOn ',').length ≤ row.optionIndex then return
  if poll.closesAt ≤ row.blockTime then return
  execute (.pollVoteInsert row.pollId) (Db.insertPollVote row)

def processKPollvoteInDatabase (env : Env) (transaction : Transaction) (k : KPollVote) :
    Worker Unit := do
  if !(← checkSignature env (KAction.pollVote k).signingString k.senderSignature k.senderPubkey
      transaction) then return
  let some poll := hexDecode k.pollId | return
  let some voter := hexDecode k.senderPubkey | return
  let some signature := hexDecode k.senderSignature | return
  storePollVote ⟨transaction.transactionId, poll, voter, k.optionIndex, transaction.time, signature⟩

/-- What a version-0 output pays a p2pk script: the amount, the version and the script. -/
abbrev TxOutput := ℕ × ℕ × Bytes

def p2pkScript (xonly : Bytes) : Bytes := 0x20 :: xonly ++ [0xac]

/-- Saturating at the largest `u64`. -/
def amountPaidTo (outputs : List TxOutput) (xonly : Bytes) : ℕ :=
  (outputs.filter fun o => o.2.1 = 0 ∧ o.2.2 = p2pkScript xonly).foldl
    (fun sum o => min (sum + o.1) (2 ^ 64 - 1)) 0

/-- A tip for an indexed content of the author that its outputs pay. `outputs` is what the node says
of the transaction's outputs: no answer leaves the tip to a later retry, and the transaction may be
missing from its block. -/
def storeTip (outputs : Option (Option (List TxOutput))) (author : Bytes) (row : Tip) :
    Worker Unit := do
  if !(← query .contentSelect (fun db => db.contents.any fun c =>
      c.transactionId = row.postId ∧ c.senderPubkey = row.authorPubkey)) then return
  let some (some outputs) := outputs | return
  let amount := amountPaidTo outputs author
  if amount = 0 ∨ 2 ^ 63 ≤ amount then return
  execute (.tipInsert row.postId) (Db.insertTip { row with amount := amount }
    ⟨row.transactionId, .tip, row.authorPubkey, row.blockTime, row.senderPubkey⟩)

def processKTipInDatabase (env : Env) (outputs : Bytes → Option (Option (List TxOutput)))
    (transaction : Transaction) (k : KTip) : Worker Unit := do
  if !(← checkSignature env (KAction.tip k).signingString k.senderSignature k.senderPubkey
      transaction) then return
  let some tipper := (hexDecode k.senderPubkey).bind xonly | return
  let some author := (hexDecode k.authorPubkey).bind xonly | return
  if tipper = author then return
  let some post := hexDecode k.postId | return
  let some authorKey := hexDecode k.authorPubkey | return
  let some sender := hexDecode k.senderPubkey | return
  let some signature := hexDecode k.senderSignature | return
  storeTip (outputs transaction.transactionId) author
    ⟨transaction.transactionId, transaction.time, sender, signature, post, authorKey, 0⟩

/-! ## Follows and blocks -/

/-- Records the action as the newest for the pair, and says whether it is. -/
def relationIsNewest (kind : RelationKind) (sender target : Bytes) (action : Text) (time : ℤ) :
    Worker Bool :=
  stmt (.relationNewest kind) (Db.upsertRelationLast kind sender target action time)

/-- `follow` or `block`: the row that says so, unless one stands. -/
def insertRelation (kind : RelationKind) (row : Relation) : Worker Unit :=
  execute (.relationWrite kind row.senderPubkey row.targetPubkey row.blockTime)
    (Db.insertRelation kind row)

/-- `unfollow` or `unblock`: the row goes unless it is newer. -/
def deleteRelation (kind : RelationKind) (row : Relation) : Worker Unit :=
  execute (.relationWrite kind row.senderPubkey row.targetPubkey row.blockTime)
    (Db.deleteRelation kind row.senderPubkey row.targetPubkey row.blockTime)

/-- A follow involves a key that has written on KaChat. -/
def follow (row : Relation) (action : Text) : Worker Unit := do
  if !(← query .contentSelect (Db.kachatRelated · row.senderPubkey row.targetPubkey)) then return
  if !(← relationIsNewest .follow row.senderPubkey row.targetPubkey action row.blockTime) then
    return
  insertRelation .follow row

def unfollow (row : Relation) (action : Text) : Worker Unit := do
  if !(← relationIsNewest .follow row.senderPubkey row.targetPubkey action row.blockTime) then
    return
  deleteRelation .follow row

def processKFollowInDatabase (env : Env) (transaction : Transaction) (k : KFollow) :
    Worker Unit := do
  if !(← checkSignature env (KAction.follow k).signingString k.senderSignature k.senderPubkey
      transaction) then return
  let some sender := hexDecode k.senderPubkey | return
  let some target := hexDecode k.followedUserPubkey | return
  let some signature := hexDecode k.senderSignature | return
  let row : Relation := ⟨transaction.transactionId, transaction.time, sender, signature, target⟩
  if k.followingAction = "follow".toList then follow row k.followingAction
  else unfollow row k.followingAction

/-- The operator's own block is mirrored into the denylist, and the target's rows go. -/
def operatorBlockTarget (targetHex : Text) (target : Bytes) : Worker Unit := do
  execute .denylistInsert (Db.insertDenied targetHex)
  execute (.purge target) (Db.purge target)

/-- `targetHex` is the target's key when the sender is the indexer's operator. -/
def block (row : Relation) (action : Text) (targetHex : Option Text) : Worker Unit := do
  if !(← relationIsNewest .block row.senderPubkey row.targetPubkey action row.blockTime) then return
  insertRelation .block row
  let some targetHex := targetHex | return
  operatorBlockTarget targetHex row.targetPubkey

def unblock (row : Relation) (action : Text) (targetHex : Option Text) : Worker Unit := do
  if !(← relationIsNewest .block row.senderPubkey row.targetPubkey action row.blockTime) then return
  deleteRelation .block row
  let some targetHex := targetHex | return
  execute .denylistDelete (Db.removeDenied targetHex)

def processKBlockInDatabase (env : Env) (transaction : Transaction) (k : KBlock) :
    Worker Unit := do
  if !(← checkSignature env (KAction.block k).signingString k.senderSignature k.senderPubkey
      transaction) then return
  let some sender := hexDecode k.senderPubkey | return
  let some target := hexDecode k.blockedUserPubkey | return
  let some signature := hexDecode k.senderSignature | return
  let row : Relation := ⟨transaction.transactionId, transaction.time, sender, signature, target⟩
  let targetHex := if env.isKapostsOperator k.senderPubkey then some k.blockedUserPubkey else none
  if k.blockingAction = "block".toList then block row k.blockingAction targetHex
  else unblock row k.blockingAction targetHex

/-! ## Profiles -/

/-- Recording the signature and replacing the profile are one database transaction. -/
def storeBroadcast (row : Broadcast) : Worker Unit := do
  if ← query .broadcastSignatureSelect (Db.broadcastReplay row.senderSignature row.transactionId)
  then return
  let (replaced, seen) ← query .broadcastsSelect fun db => (db.replacedProfiles row,
    db.broadcasts.filter fun b => fromSecond b.senderPubkey = fromSecond row.senderPubkey)
  execute (.broadcastCommit row seen) (Db.commitBroadcast row replaced)

def saveKBroadcastToDatabase (env : Env) (transaction : Transaction) (k : KBroadcast) :
    Worker Unit := do
  if !(validateKProfile k.base64EncodedNickname k.base64EncodedProfileImage
      k.base64EncodedMessage).isOk then return
  if !(← checkSignature env (KAction.broadcast k).signingString k.senderSignature k.senderPubkey
      transaction) then return
  let some sender := hexDecode k.senderPubkey | return
  let some signature := hexDecode k.senderSignature | return
  storeBroadcast ⟨transaction.transactionId, transaction.time, sender, signature,
    k.base64EncodedNickname, k.base64EncodedProfileImage, k.base64EncodedMessage⟩

/-! ## Transactions -/

def processAction (env : Env) (outputs : Bytes → Option (Option (List TxOutput)))
    (transaction : Transaction) : KAction → Worker Unit
  | .broadcast k => saveKBroadcastToDatabase env transaction k
  | .post k => saveUnlessDeleted transaction k.senderPubkey (saveKPostToDatabase env transaction k)
  | .reply k => saveUnlessDeleted transaction k.senderPubkey (saveKReplyToDatabase env transaction k)
  | .vote k => saveKVoteToDatabase env transaction k
  | .block k => processKBlockInDatabase env transaction k
  | .quote k => saveUnlessDeleted transaction k.senderPubkey (saveKQuoteToDatabase env transaction k)
  | .follow k => processKFollowInDatabase env transaction k
  | .unquote k => processKUnquoteInDatabase env transaction k
  | .edit k => processKEditInDatabase env transaction k
  | .delete k => processKDeleteInDatabase env transaction k
  | .poll k =>
      saveUnlessDeleted transaction k.senderPubkey (processKPollInDatabase env transaction k)
  | .pollVote k => processKPollvoteInDatabase env transaction k
  | .tip k => processKTipInDatabase env outputs transaction k
  | .unknown _ => pure ()

/-- Whether the author of an action is on the denylist. -/
def isKapostsDenied (action : KAction) : Worker Bool :=
  match actionSenderPubkey action with
  | none => pure false
  | some pubkey => query .denylistSelect (Db.denies · pubkey)

def processKTransaction (env : Env) (outputs : Bytes → Option (Option (List TxOutput)))
    (transaction : Transaction) : Worker Unit :=
  match transaction.action env with
  | none => pure ()
  | some action => do
    if ← isKapostsDenied action then return
    processAction env outputs transaction action

/-- Any number of workers, each given any transactions, any of them again and again. -/
def processor (env : Env) (outputs : Bytes → Option (Option (List TxOutput))) :
    System Db Sql Transaction where
  input _ := True
  prog := processKTransaction env outputs
  may _ _ _ := True

/-- The workers, given some transactions, while each statement runs only where it may. -/
def workers (env : Env) (outputs : Bytes → Option (Option (List TxOutput)))
    (ours : Transaction → Prop) (may : Sql → Db → Prop) : System Db Sql Transaction :=
  ⟨ours, processKTransaction env outputs, fun _ => may⟩

/-- Transactions processed one after another. -/
def processAll (env : Env) (outputs : Bytes → Option (Option (List TxOutput)))
    (transactions : List Transaction) (db : Db) : Db :=
  transactions.foldl (fun db transaction =>
    ((processKTransaction env outputs transaction).alone db).2) db

end KaChatIndexer.KaHandlers

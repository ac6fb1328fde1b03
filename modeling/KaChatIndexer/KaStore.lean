import KaChatIndexer.KaActions

/-!
# The KaPosts tables

The rows that the processor keeps and its SQL statements on them. A unique index is checked where a
statement inserts; what a statement reads, it reads from the rows committed before it.
-/
namespace KaChatIndexer.KaStore
open ByteStrings KaText KaActions

inductive ContentType where
  | post | reply | quote | repost | poll
  deriving DecidableEq

/-- A row of `k_contents`. -/
structure Content where
  transactionId : Bytes
  blockTime : ℤ
  senderPubkey : Bytes
  senderSignature : Bytes
  base64EncodedMessage : Text
  contentType : ContentType
  referencedContentId : Option Bytes
  editedAt : Option ℤ
  deriving DecidableEq

/-- A row of `k_votes`. -/
structure Vote where
  transactionId : Bytes
  blockTime : ℤ
  senderPubkey : Bytes
  senderSignature : Bytes
  postId : Bytes
  vote : Text
  deriving DecidableEq

inductive MentionType where
  | post | reply | quote | repost | vote | tip
  deriving DecidableEq

/-- A row of `k_mentions`. -/
structure Mention where
  contentId : Bytes
  contentType : MentionType
  mentionedPubkey : Bytes
  blockTime : ℤ
  senderPubkey : Bytes
  deriving DecidableEq

/-- A row of `k_broadcasts`. -/
structure Broadcast where
  transactionId : Bytes
  blockTime : ℤ
  senderPubkey : Bytes
  senderSignature : Bytes
  base64EncodedNickname : Text
  base64EncodedProfileImage : Option Text
  base64EncodedMessage : Text
  deriving DecidableEq

/-- A row of `k_polls`. -/
structure Poll where
  postId : Bytes
  options : Text
  closesAt : ℤ
  blockTime : ℤ
  deriving DecidableEq

/-- A row of `k_poll_votes`. -/
structure PollVote where
  transactionId : Bytes
  pollId : Bytes
  voterPubkey : Bytes
  optionIndex : ℤ
  blockTime : ℤ
  senderSignature : Bytes
  deriving DecidableEq

/-- A row of `k_tips`. -/
structure Tip where
  transactionId : Bytes
  blockTime : ℤ
  senderPubkey : Bytes
  senderSignature : Bytes
  postId : Bytes
  authorPubkey : Bytes
  amount : ℕ
  deriving DecidableEq

/-- A row of `k_edits`. -/
structure Edit where
  transactionId : Bytes
  blockTime : ℤ
  senderPubkey : Bytes
  senderSignature : Bytes
  postId : Bytes
  base64EncodedMessage : Text
  deriving DecidableEq

/-- A row of `k_deletes` or of `kachat_delete_tombstones`. -/
structure Deletion where
  transactionId : Bytes
  blockTime : ℤ
  senderPubkey : Bytes
  postId : Bytes
  deriving DecidableEq

/-- The relations of one key to another: `k_follows` and `k_blocks`. -/
inductive RelationKind where
  | follow | block
  deriving DecidableEq

/-- A row of `k_follows` or `k_blocks`. -/
structure Relation where
  transactionId : Bytes
  blockTime : ℤ
  senderPubkey : Bytes
  senderSignature : Bytes
  targetPubkey : Bytes
  deriving DecidableEq

/-- A row of `kachat_relation_last`. -/
structure RelationLast where
  kind : RelationKind
  senderPubkey : Bytes
  targetXonly : Bytes
  action : Text
  blockTime : ℤ
  deriving DecidableEq

structure Db where
  contents : List Content
  votes : List Vote
  mentions : List Mention
  broadcasts : List Broadcast
  polls : List Poll
  pollVotes : List PollVote
  tips : List Tip
  edits : List Edit
  deletes : List Deletion
  deleteTombstones : List Deletion
  relations : RelationKind → List Relation
  relationLast : List RelationLast
  usedSignatures : List (Bytes × Bytes)
  broadcastSignatures : List (Bytes × Bytes)
  kapostsDenylist : List Text

def Db.empty : Db :=
  ⟨[], [], [], [], [], [], [], [], [], [], fun _ => [], [], [], [], []⟩

/-- `substring(key from 2)`. -/
def fromSecond (key : Bytes) : Bytes := key.drop 1

/-- `substring(key from octet_length(key) - 31)`: the last 32 bytes. -/
def last32 (key : Bytes) : Bytes := key.drop (key.length - 32)

namespace Db

/-! ## Signatures -/

def usedBy (db : Db) (signature : Bytes) : Option Bytes := db.usedSignatures.lookup signature

/-- `INSERT INTO kachat_used_signatures ... ON CONFLICT DO NOTHING`, and whether it inserted. -/
def insertUsed (signature transactionId : Bytes) (db : Db) : Bool × Db :=
  if (db.usedBy signature).isSome then (false, db)
  else (true, { db with usedSignatures := (signature, transactionId) :: db.usedSignatures })

/-! ## Contents -/

def content (db : Db) (id : Bytes) : Option Content := db.contents.find? (·.transactionId = id)

/-- The insert of a content row with its mentions, in one statement, and whether it inserted. A
transaction carries one signature, so a row of the same id conflicts on the signature too. -/
def insertContent (row : Content) (mentions : List Mention) (db : Db) : Bool × Db :=
  if db.contents.any fun c => c.senderSignature = row.senderSignature ∨
      c.transactionId = row.transactionId then (false, db)
  else (true, { db with contents := db.contents ++ [row], mentions := db.mentions ++ mentions })

def insertPoll (row : Poll) (db : Db) : Db :=
  if db.polls.any (·.postId = row.postId) then db else { db with polls := db.polls ++ [row] }

def insertMention (row : Mention) (db : Db) : Db := { db with mentions := db.mentions ++ [row] }

/-- An edit mentions only whom the content does not mention yet. -/
def insertEditMention (row : Mention) (db : Db) : Db :=
  if db.mentions.any fun m => m.contentId = row.contentId ∧ m.mentionedPubkey = row.mentionedPubkey
  then db else db.insertMention row

def insertEdit (row : Edit) (db : Db) : Db :=
  if db.edits.any (·.senderSignature = row.senderSignature) then db
  else { db with edits := db.edits ++ [row] }

/-- Whether an edit of that time applies to the row as it stands. -/
def editApplies (id : Bytes) (time : ℤ) (c : Content) : Bool :=
  c.transactionId = id ∧ c.editedAt.getD c.blockTime < time

/-- The guarded `UPDATE k_contents`, and whether it changed a row. -/
def updateContent (id : Bytes) (message : Text) (time : ℤ) (db : Db) : Bool × Db :=
  (db.contents.any (editApplies id time),
    { db with contents := db.contents.map fun c => if editApplies id time c then
        { c with base64EncodedMessage := message, editedAt := some time } else c })

/-! ## Deletes -/

def hasTombstone (db : Db) (id author : Bytes) : Bool :=
  db.deleteTombstones.any fun d => d.postId = id ∧ d.senderPubkey = author

def insertTombstone (row : Deletion) (db : Db) : Db :=
  if db.hasTombstone row.postId row.senderPubkey then db
  else { db with deleteTombstones := db.deleteTombstones ++ [row] }

def insertDelete (row : Deletion) (db : Db) : Db :=
  if db.deletes.any (·.postId = row.postId) then db else { db with deletes := db.deletes ++ [row] }

/-- The content if the author wrote it, and its votes and mentions in any case. -/
def hardDeleteContent (id author : Bytes) (db : Db) : Db :=
  { db with
    contents := db.contents.filter fun c => ¬ (c.transactionId = id ∧ c.senderPubkey = author)
    votes := db.votes.filter (·.postId ≠ id)
    mentions := db.mentions.filter (·.contentId ≠ id) }

/-- The sender's quotes and reposts of a content, with their mentions. -/
def deleteQuotes (referenced sender : Bytes) (db : Db) : Db :=
  let isQuote (c : Content) : Bool := c.referencedContentId = some referenced ∧
    c.senderPubkey = sender ∧ (c.contentType = .quote ∨ c.contentType = .repost)
  let ids := (db.contents.filter isQuote).map (·.transactionId)
  { db with
    contents := db.contents.filter fun c => ¬ isQuote c
    mentions := db.mentions.filter fun m =>
      ¬ ((m.contentType = .quote ∨ m.contentType = .repost) ∧ m.contentId ∈ ids) }

/-! ## Votes -/

/-- A vote of the key (in any encoding) on the post. -/
def votesOf (post sender : Bytes) (v : Vote) : Bool :=
  v.postId = post ∧ last32 v.senderPubkey = last32 sender

def deleteVoteMentions (ids : List Bytes) (mentions : List Mention) : List Mention :=
  mentions.filter fun m => ¬ (m.contentType = .vote ∧ m.contentId ∈ ids)

/-- `unvote`: the key's votes on the post, with their mentions. -/
def deleteVotes (post sender : Bytes) (db : Db) : Db :=
  { db with
    votes := db.votes.filter fun v => ¬ votesOf post sender v
    mentions := deleteVoteMentions ((db.votes.filter (votesOf post sender)).map (·.transactionId))
      db.mentions }

/-- The earlier votes of the key that a vote replaces. -/
def replacedVotes (row : Vote) (db : Db) : List Vote :=
  db.votes.filter fun v => votesOf row.postId row.senderPubkey v ∧ v.blockTime ≤ row.blockTime ∧
    v.senderSignature ≠ row.senderSignature

/-- The unique indexes of `k_votes`: transaction, signature, and one vote per key and post. -/
def voteConflict (row v : Vote) : Bool :=
  v.transactionId = row.transactionId ∨ v.senderSignature = row.senderSignature ∨
    votesOf row.postId row.senderPubkey v

/-- The end of a vote's transaction: the replaced votes go with their mentions, and the vote comes
with its own unless it conflicts. -/
def commitVote (row : Vote) (mention : Mention) (replaced : List Bytes) (db : Db) : Db :=
  let votes := db.votes.filter fun v => v.transactionId ∉ replaced
  let mentions := deleteVoteMentions replaced db.mentions
  if votes.any (voteConflict row) then { db with votes := votes, mentions := mentions }
  else { db with votes := votes ++ [row], mentions := mentions ++ [mention] }

def insertPollVote (row : PollVote) (db : Db) : Db :=
  if db.pollVotes.any (·.senderSignature = row.senderSignature) then db
  else { db with pollVotes := db.pollVotes ++ [row] }

/-- A tip and its mention, in one statement. -/
def insertTip (row : Tip) (mention : Mention) (db : Db) : Db :=
  if db.tips.any fun t => t.transactionId = row.transactionId ∨
      t.senderSignature = row.senderSignature then db
  else { db with tips := db.tips ++ [row], mentions := db.mentions ++ [mention] }

/-! ## Follows and blocks -/

/-- Whether a relation row is of the sender towards the x-only target. -/
def relates (sender target : Bytes) (r : Relation) : Bool :=
  r.senderPubkey = sender ∧ fromSecond r.targetPubkey = fromSecond target

def setRelations (kind : RelationKind) (rows : List Relation) (db : Db) : Db :=
  { db with relations := fun k => if k = kind then rows else db.relations k }

/-- One row per sender and x-only target. -/
def insertRelation (kind : RelationKind) (row : Relation) (db : Db) : Db :=
  if (db.relations kind).any (relates row.senderPubkey row.targetPubkey) then db
  else db.setRelations kind (db.relations kind ++ [row])

def deleteRelation (kind : RelationKind) (sender target : Bytes) (time : ℤ) (db : Db) : Db :=
  db.setRelations kind ((db.relations kind).filter fun r =>
    ¬ (relates sender target r ∧ r.blockTime ≤ time))

def isLast (kind : RelationKind) (sender target : Bytes) (r : RelationLast) : Bool :=
  r.kind = kind ∧ r.senderPubkey = sender ∧ r.targetXonly = fromSecond target

/-- The upsert of `relation_is_newest`, and whether it wrote a row. -/
def upsertRelationLast (kind : RelationKind) (sender target : Bytes) (action : Text) (time : ℤ)
    (db : Db) : Bool × Db :=
  match db.relationLast.find? (isLast kind sender target) with
  | none =>
    let row : RelationLast := ⟨kind, sender, fromSecond target, action, time⟩
    (true, { db with relationLast := db.relationLast ++ [row] })
  | some last =>
    if last.blockTime ≤ time then
      let renew (r : RelationLast) : RelationLast :=
        if isLast kind sender target r then { r with action := action, blockTime := time } else r
      (true, { db with relationLast := db.relationLast.map renew })
    else (false, db)

/-- Whether one of the two keys has written a content. -/
def kachatRelated (db : Db) (sender target : Bytes) : Bool :=
  db.contents.any fun c => c.senderPubkey = sender ∨ c.senderPubkey = target

def denies (db : Db) (pubkeyHex : Text) : Bool :=
  db.kapostsDenylist.contains (toAsciiLowercase pubkeyHex)

def insertDenied (pubkeyHex : Text) (db : Db) : Db :=
  if db.denies pubkeyHex then db
  else { db with kapostsDenylist := db.kapostsDenylist ++ [toAsciiLowercase pubkeyHex] }

def removeDenied (pubkeyHex : Text) (db : Db) : Db :=
  { db with kapostsDenylist := db.kapostsDenylist.filter (· ≠ toAsciiLowercase pubkeyHex) }

/-- Everything an operator's block removes of its target. -/
def purge (target : Bytes) (db : Db) : Db :=
  { db with
    mentions := db.mentions.filter (·.senderPubkey ≠ target)
    contents := db.contents.filter (·.senderPubkey ≠ target)
    votes := db.votes.filter (·.senderPubkey ≠ target)
    relations := fun kind => (db.relations kind).filter (·.senderPubkey ≠ target) }

/-! ## Profiles -/

/-- Whether a signature is recorded for another transaction. -/
def broadcastReplay (signature transactionId : Bytes) (db : Db) : Bool :=
  (db.broadcastSignatures.lookup signature).any (· ≠ transactionId)

/-- Another profile of the same x-only key. -/
def otherProfile (row b : Broadcast) : Bool :=
  fromSecond b.senderPubkey = fromSecond row.senderPubkey ∧ b.transactionId ≠ row.transactionId

/-- What the statement that replaces a profile sees: `none` when a newer profile stands, else the
rows it deletes. -/
def replacedProfiles (row : Broadcast) (db : Db) : Option (List Bytes) :=
  if db.broadcasts.any fun b => otherProfile row b ∧ row.blockTime < b.blockTime then none
  else some ((db.broadcasts.filter (otherProfile row)).map (·.transactionId))

def recordBroadcastSignature (signature transactionId : Bytes) (db : Db) : Db :=
  if (db.broadcastSignatures.lookup signature).isSome then db
  else { db with broadcastSignatures := (signature, transactionId) :: db.broadcastSignatures }

/-- The end of a broadcast's transaction: its signature is recorded and what its statement decided
comes into effect. -/
def commitBroadcast (row : Broadcast) (replaced : Option (List Bytes)) (db : Db) : Db :=
  let db := db.recordBroadcastSignature row.senderSignature row.transactionId
  match replaced with
  | none => db
  | some ids =>
    let rows := db.broadcasts.filter fun b => b.transactionId ∉ ids
    { db with broadcasts :=
        if rows.any (·.transactionId = row.transactionId) then rows else rows ++ [row] }

end Db

/-- The statements of the processor, as a schedule of them is written down. -/
inductive Sql where
  | denylistSelect
  | usedSnapshot
  | usedInsert
  | usedSelect
  | passed (signature transactionId : Bytes)
  | replayed (signature transactionId : Bytes)
  | missed (signature transactionId : Bytes)
  | tombstoneSelect
  | contentSelect
  | pollSelect
  | votesSelect
  | broadcastSignatureSelect
  | broadcastsSelect
  | contentInsert (id : Bytes)
  | pollInsert (id : Bytes)
  | pollMentionInsert (id : Bytes)
  | voteCommit (post : Bytes)
  | votesDelete (post : Bytes)
  | quotesDelete (content : Bytes)
  | editInsert (post : Bytes)
  | contentUpdate (post : Bytes)
  | editMentionInsert (post : Bytes)
  | tombstoneInsert (post : Bytes)
  | deleteInsert (post : Bytes)
  | hardDelete (post : Bytes)
  | dropDeleted (post : Bytes)
  | relationNewest (kind : RelationKind)
  | relationWrite (kind : RelationKind) (sender target : Bytes) (time : ℤ)
  | denylistInsert
  | purge (target : Bytes)
  | denylistDelete
  | pollVoteInsert (poll : Bytes)
  | tipInsert (post : Bytes)
  | broadcastCommit (row : Broadcast) (seen : List Broadcast)
  deriving DecidableEq

/-- The statements that carry out a signed action: they write to the tables, and do so because the
action's signature was fresh. -/
def Sql.carriesOut : Sql → Bool
  | .denylistSelect | .usedSnapshot | .usedInsert | .usedSelect | .passed _ _ | .replayed _ _
  | .missed _ _ | .tombstoneSelect | .contentSelect | .pollSelect | .votesSelect | .broadcastSignatureSelect
  | .broadcastsSelect | .dropDeleted _ => false
  | _ => true

end KaChatIndexer.KaStore

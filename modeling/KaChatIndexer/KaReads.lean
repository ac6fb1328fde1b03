import KaChatIndexer.KaPolls
import KaChatIndexer.KaTables

/-!
# The KaPosts queries

What the web server answers from the tables: feeds of contents, lists of users, relations, votes, tips
and channel messages. A key of a request is compared with the tables in four ways: byte for byte, with
both of its forms, without its first byte, or by the end of its hex text.
-/
namespace KaChatIndexer.KaReads
open ByteStrings KaText KaStore KaHashtags KaTables KaPolls
open ScheduledPosts (hexEncode)

/-! ## Keys -/

/-- Both forms of a K identity key; anything else is matched as given. -/
def pubkeyVariants (key : Bytes) : List Bytes :=
  match key with
  | parity :: xonly =>
    if xonly.length = 32 ∧ (parity = 2 ∨ parity = 3) then [2 :: xonly, 3 :: xonly]
    else if xonly.length = 31 then [2 :: key, 3 :: key] else [key]
  | [] => [key]

/-! ## Records -/

structure KPostRecord where
  id : ℤ
  transactionId : Text
  blockTime : ℕ
  senderPubkey : Text
  senderSignature : Text
  base64EncodedMessage : Text
  mentionedPubkeys : List Text
  contentType : Option Text
  editedAt : Option ℤ
  poll : Option PollData
  tipsCount : Option ℕ
  repliesCount : Option ℕ
  upVotesCount : Option ℕ
  downVotesCount : Option ℕ
  quotesCount : Option ℕ
  isUpvoted : Option Bool
  isDownvoted : Option Bool
  userNickname : Option Text
  userProfileImage : Option Text
  referencedContentId : Option Text
  referencedMessage : Option Text
  referencedSenderPubkey : Option Text
  referencedNickname : Option Text
  referencedProfileImage : Option Text
  deriving DecidableEq

structure KReplyRecord where
  id : ℤ
  transactionId : Text
  blockTime : ℕ
  senderPubkey : Text
  senderSignature : Text
  postId : Text
  base64EncodedMessage : Text
  mentionedPubkeys : List Text
  contentType : Option Text
  editedAt : Option ℤ
  tipsCount : Option ℕ
  repliesCount : Option ℕ
  upVotesCount : Option ℕ
  downVotesCount : Option ℕ
  quotesCount : Option ℕ
  isUpvoted : Option Bool
  isDownvoted : Option Bool
  userNickname : Option Text
  userProfileImage : Option Text
  deriving DecidableEq

structure KVoteRecord where
  id : ℤ
  transactionId : Text
  blockTime : ℕ
  senderPubkey : Text
  senderSignature : Text
  postId : Text
  vote : Text
  mentionBlockTime : Option ℕ
  votedContent : Option Text
  userNickname : Option Text
  userProfileImage : Option Text
  deriving DecidableEq

inductive ContentRecord where
  | post (record : KPostRecord)
  | reply (record : KReplyRecord)
  | vote (record : KVoteRecord)
  deriving DecidableEq

structure KBroadcastRecord where
  id : ℤ
  transactionId : Text
  blockTime : ℕ
  senderPubkey : Text
  senderSignature : Text
  base64EncodedNickname : Text
  base64EncodedProfileImage : Option Text
  base64EncodedMessage : Text
  deriving DecidableEq

structure EngagementActor where
  actorPubkey : Text
  actionTxId : Text
  timestamp : ℕ
  kind : Text
  id : ℤ
  deriving DecidableEq

structure Tipper where
  id : Text
  userPublicKey : Text
  amountSompi : ℕ
  timestamp : ℕ
  rowId : ℤ
  deriving DecidableEq

instance : HasCompoundCursor KPostRecord := ⟨(·.blockTime), (·.id)⟩
instance : HasCompoundCursor KReplyRecord := ⟨(·.blockTime), (·.id)⟩
instance : HasCompoundCursor KBroadcastRecord := ⟨(·.blockTime), (·.id)⟩
instance : HasCompoundCursor EngagementActor := ⟨(·.timestamp), (·.id)⟩
instance : HasCompoundCursor Tipper := ⟨(·.timestamp), (·.rowId)⟩

instance : HasCompoundCursor ContentRecord where
  getTimestamp
    | .post record => record.blockTime
    | .reply record => record.blockTime
    | .vote record => record.blockTime
  getId
    | .post record => record.id
    | .reply record => record.id
    | .vote record => record.id

/-- The pages of users take the cursor from the record. -/
instance {β : Type} : HasCompoundCursor (KBroadcastRecord × β) := ⟨(·.1.blockTime), (·.1.id)⟩

/-! ## Lookups -/

variable (t : Tables)

section
variable (requester : Bytes)

/-- The row of the requester, by the key as given, for an author, by the x-only key. -/
def isRelated (kind : RelationKind) (author : Bytes) : Bool :=
  (t.db.relations kind).any (Db.relates requester author)

def isBlocked (author : Bytes) : Bool := isRelated t requester .block author

def isFollowed (author : Bytes) : Bool := isRelated t requester .follow author

/-- `bool_or(vote = .. AND sender_pubkey = $1)` -/
def hasVoted (vote : Text) (post : Bytes) : Bool :=
  t.db.votes.any fun v => v.postId = post ∧ v.vote = vote ∧ v.senderPubkey = requester

end

def countReferring (type : ContentType) (post : Bytes) : ℕ :=
  t.db.contents.countP fun c => c.contentType = type ∧ c.referencedContentId = some post

def countVotes (vote : Text) (post : Bytes) : ℕ :=
  t.db.votes.countP fun v => v.postId = post ∧ v.vote = vote

def mentionedIn (types : List MentionType) (content : Bytes) : List Text :=
  (t.db.mentions.filter fun m => m.contentId = content ∧ m.contentType ∈ types).map fun m =>
    hexEncode m.mentionedPubkey

/-- A profile of exactly this key. -/
def profileOf (key : Bytes) : Option Broadcast := t.db.broadcasts.find? (·.senderPubkey = key)

def nicknameOf (profile : Option Broadcast) : Text := profile.elim [] (·.base64EncodedNickname)

def imageOf (profile : Option Broadcast) : Option Text := profile.bind (·.base64EncodedProfileImage)

def contentTypeText : ContentType → Text
  | .post => "post".toList
  | .reply => "reply".toList
  | .quote => "quote".toList
  | .repost => "repost".toList
  | .poll => "poll".toList

/-- The mentions whose type is that of the content; no mention has the type of a poll. -/
def mentionTypesOf : ContentType → List MentionType
  | .post => [.post]
  | .reply => [.reply]
  | .quote => [.quote]
  | .repost => [.repost]
  | .poll => []

/-- What a content refers to, for the types that show it. -/
def referenced (types : List ContentType) (c : Content) : Option Content :=
  if c.contentType ∈ types then c.referencedContentId.bind t.db.content else none

/-! ## Contents -/

section
variable (requester : Bytes)

/-- A row of a feed, before it is enriched. -/
def postRecord (mentionTypes : List MentionType) (quoting : List ContentType) (c : Numbered Content) :
    KPostRecord :=
  let id := c.row.transactionId
  let profile := profileOf t c.row.senderPubkey
  let original := referenced t quoting c.row
  let author := original.bind fun o => profileOf t o.senderPubkey
  { id := c.id
    transactionId := hexEncode id
    blockTime := asU64 c.row.blockTime
    senderPubkey := hexEncode c.row.senderPubkey
    senderSignature := hexEncode c.row.senderSignature
    base64EncodedMessage := c.row.base64EncodedMessage
    mentionedPubkeys := mentionedIn t mentionTypes id
    contentType := none
    editedAt := none
    poll := none
    tipsCount := none
    repliesCount := some (countReferring t .reply id)
    upVotesCount := some (countVotes t "upvote".toList id)
    downVotesCount := some (countVotes t "downvote".toList id)
    quotesCount := some (countReferring t .quote id)
    isUpvoted := some (hasVoted t requester "upvote".toList id)
    isDownvoted := some (hasVoted t requester "downvote".toList id)
    userNickname := some (nicknameOf profile)
    userProfileImage := imageOf profile
    referencedContentId := c.row.referencedContentId.map hexEncode
    referencedMessage := original.map (·.base64EncodedMessage)
    referencedSenderPubkey := original.map fun o => hexEncode o.senderPubkey
    referencedNickname := some (nicknameOf author)
    referencedProfileImage := imageOf author }

def replyRecord (c : Numbered Content) (postId : Bytes) : KReplyRecord :=
  let id := c.row.transactionId
  let profile := profileOf t c.row.senderPubkey
  { id := c.id
    transactionId := hexEncode id
    blockTime := asU64 c.row.blockTime
    senderPubkey := hexEncode c.row.senderPubkey
    senderSignature := hexEncode c.row.senderSignature
    postId := hexEncode postId
    base64EncodedMessage := c.row.base64EncodedMessage
    mentionedPubkeys := mentionedIn t [.reply] id
    contentType := none
    editedAt := none
    tipsCount := none
    repliesCount := some (countReferring t .reply id)
    upVotesCount := some (countVotes t "upvote".toList id)
    downVotesCount := some (countVotes t "downvote".toList id)
    quotesCount := some (countReferring t .quote id)
    isUpvoted := some (hasVoted t requester "upvote".toList id)
    isDownvoted := some (hasVoted t requester "downvote".toList id)
    userNickname := some (nicknameOf profile)
    userProfileImage := imageOf profile }

/-- §5.7 -/
def editedAtOf (content : Bytes) : Option ℤ := (t.db.content content).bind (·.editedAt)

/-- §5.11: a content without tips keeps `None`. -/
def tipsCountOf (content : Bytes) : Option ℕ :=
  let n := t.db.tips.countP (·.postId = content)
  if n = 0 then none else some n

/-- §5.9: a content with a row in `k_polls` becomes a poll. -/
def withPoll (content : Bytes) (record : KPostRecord) : KPostRecord :=
  match enrichPolls content requester t.db with
  | some data => { record with contentType := some "poll".toList, poll := some data }
  | none => record

def withEdit (content : Bytes) (record : KPostRecord) : KPostRecord :=
  { record with editedAt := editedAtOf t content, tipsCount := tipsCountOf t content }

/-- A post of the global feed and of a user's page. -/
def feedPost (c : Numbered Content) : KPostRecord :=
  withPoll t requester c.row.transactionId (withEdit t c.row.transactionId
    (postRecord t requester [.post, .quote] [.reply, .quote] c))

/-- A content of the pages that tell its type. -/
def typedPost (c : Numbered Content) : KPostRecord :=
  withEdit t c.row.transactionId
    { postRecord t requester (mentionTypesOf c.row.contentType) [.quote] c with
      contentType := some (contentTypeText c.row.contentType) }

def reply (c : Numbered Content) (postId : Bytes) : KReplyRecord :=
  { replyRecord t requester c postId with
    editedAt := editedAtOf t c.row.transactionId
    tipsCount := tipsCountOf t c.row.transactionId }

end

abbrev contentPosition : Numbered Content → Position := position Content.blockTime

/-- A page of the contents that a query selects. -/
def contentPage {α : Type} [HasCompoundCursor α] (selected : Content → Bool) (item : Numbered Content → α)
    (options : QueryOptions) : PaginatedResult α :=
  let limit := options.limit.getD 20
  paginate limit item (fetch contentPosition (newestFirst contentPosition) options limit
    (t.contents.filter fun c => selected c.row))

/-- An empty page has no more, whatever was fetched. -/
def endEmpty {α : Type} (page : PaginatedResult α) : PaginatedResult α :=
  if page.items.isEmpty then { page with pagination := ⟨false, none, none⟩ } else page

/-- A page whose rows may fail to become records; the first that fails is the answer. -/
def contentPageM {α : Type} [HasCompoundCursor α] (selected : Content → Bool)
    (item : Numbered Content → DatabaseResult α) (options : QueryOptions) :
    DatabaseResult (PaginatedResult α) := do
  let limit := options.limit.getD 20
  let fetched := fetch contentPosition (newestFirst contentPosition) options limit
    (t.contents.filter fun c => selected c.row)
  let items ← (fetched.take limit).mapM item
  .ok ⟨items, createCompoundPaginationMetadata items (limit < fetched.length)⟩

/-- The types of the global feed. -/
def isPost (c : Content) : Bool := [.post, .quote, .poll].contains c.contentType

def likePattern (q : Text) : Text :=
  '%' :: q.flatMap (fun c => if ['\\', '%', '_'].contains c then ['\\', c] else [c]) ++ ['%']

/-- `message_text`, decoded where it is not filled yet, matches the pattern of a search. -/
def messageMatches (q : Text) (c : Content) : Bool :=
  match t.derived.messageText c.transactionId with
  | some text => t.ilike text (likePattern q)
  | none => (textOf c.base64EncodedMessage).any fun text => t.ilike text (likePattern q)

def ofFeed (requester : Bytes) (contentSearch : Option Text) (c : Content) : Bool :=
  isPost c && !isBlocked t requester c.senderPubkey && contentSearch.all fun q => messageMatches t q c

def queryAllPosts (requesterPubkey : Text) (contentSearch : Option Text) (options : QueryOptions) :
    DatabaseResult (PaginatedResult KPostRecord) := do
  let requester ← decodeHexToBytes requesterPubkey
  .ok (contentPage t (ofFeed t requester contentSearch) (feedPost t requester) options)

def getAllPosts (requesterPubkey : Text) (options : QueryOptions) :=
  queryAllPosts t requesterPubkey none options

def searchPosts (requesterPubkey queryText : Text) (options : QueryOptions) :=
  queryAllPosts t requesterPubkey (some queryText) options

/-- The join gives a row per follow of the author; the unique index leaves at most one. -/
def ofFollowed (requester : Bytes) (c : Content) : Bool :=
  isFollowed t requester c.senderPubkey && [.post, .reply, .quote, .poll].contains c.contentType &&
    !isBlocked t requester c.senderPubkey

def followedPost (requester : Bytes) (c : Numbered Content) : KPostRecord :=
  withPoll t requester c.row.transactionId (typedPost t requester c)

def getContentFollowing (requesterPubkey : Text) (options : QueryOptions) :
    DatabaseResult (PaginatedResult KPostRecord) := do
  let requester ← decodeHexToBytes requesterPubkey
  .ok (endEmpty (contentPage t (ofFollowed t requester) (followedPost t requester) options))

/-- A mention of exactly this key, of the type of its content. -/
def mentions (key : Bytes) (c : Content) : Bool :=
  t.db.mentions.any fun m => m.mentionedPubkey = key ∧ m.contentId = c.transactionId ∧
    m.contentType ∈ mentionTypesOf c.contentType

def mentionRecord (requester : Bytes) (c : Numbered Content) : DatabaseResult ContentRecord :=
  let tips := tipsCountOf t c.row.transactionId
  match c.row.contentType, c.row.referencedContentId with
  | .post, _ => .ok (.post { postRecord t requester [.post] [.quote] c with tipsCount := tips })
  | .quote, _ => .ok (.post { postRecord t requester [.quote] [.quote] c with tipsCount := tips })
  | .reply, some parent => .ok (.reply { replyRecord t requester c parent with
      tipsCount := tips, repliesCount := some 0, quotesCount := none })
  | .reply, none => .error (.queryError "Missing referenced_content_id for reply".toList)
  | type, _ => .error (.queryError ("Unknown content type: ".toList ++ contentTypeText type))

/-- The original of a quote is shown by its own id, so a dangling reference shows none. -/
def shownOriginal (c : Content) : ContentRecord → ContentRecord
  | .post record => .post { record with
      referencedContentId := (referenced t [.quote] c).map fun o => hexEncode o.transactionId }
  | record => record

def getContentsMentioningUser (userPublicKey requesterPubkey : Text) (options : QueryOptions) :
    DatabaseResult (PaginatedResult ContentRecord) := do
  let mentioned ← decodeHexToBytes userPublicKey
  let requester ← decodeHexToBytes requesterPubkey
  contentPageM t (fun c => mentions t mentioned c && !isBlocked t requester c.senderPubkey)
    (fun c => (mentionRecord t requester c).map (shownOriginal t c.row)) options

def ofParent (requester post : Bytes) (c : Content) : Bool :=
  c.contentType = .reply && c.referencedContentId = some post && !isBlocked t requester c.senderPubkey

def getRepliesByPostId (postId requesterPubkey : Text) (options : QueryOptions) :
    DatabaseResult (PaginatedResult KReplyRecord) := do
  let post ← decodeHexToBytes postId
  let requester ← decodeHexToBytes requesterPubkey
  .ok (contentPage t (ofParent t requester post) (fun c => reply t requester c post) options)

/-- `row.get` of a reply without a parent has no value to give. -/
def getRepliesByUser (userPublicKey requesterPubkey : Text) (options : QueryOptions) :
    DatabaseResult (PaginatedResult KReplyRecord) := do
  let user ← decodeHexToBytes userPublicKey
  let requester ← decodeHexToBytes requesterPubkey
  contentPageM t (fun c => c.contentType = .reply && (pubkeyVariants user).contains c.senderPubkey &&
    !isBlocked t requester c.senderPubkey)
    (fun c => match c.row.referencedContentId with
      | some parent => .ok (reply t requester c parent)
      | none => .error .unexpectedNull) options

/-- The blocks are looked at when the page is cut already. -/
def getPostsByUser (userPublicKey requesterPubkey : Text) (options : QueryOptions) :
    DatabaseResult (PaginatedResult KPostRecord) := do
  let user ← decodeHexToBytes userPublicKey
  let requester ← decodeHexToBytes requesterPubkey
  let limit := options.limit.getD 20
  let fetched := fetch contentPosition (newestFirst contentPosition) options limit
    (t.contents.filter fun c => isPost c.row && (pubkeyVariants user).contains c.row.senderPubkey)
  .ok (paginate limit (feedPost t requester)
    (fetched.filter fun c => !isBlocked t requester c.row.senderPubkey))

/-- The contents, each as often as it is joined with the tag. -/
def taggedContents (requester : Bytes) (hashtag : Text) : List (Numbered Content) :=
  (t.contents.flatMap fun c => (t.derived.hashtags.filter fun h =>
    h.contentId = c.row.transactionId ∧ h.hashtag = hashtag).map fun _ => c).filter fun c =>
      [.post, .reply, .quote].contains c.row.contentType && !isBlocked t requester c.row.senderPubkey

def getHashtagContent (hashtag requesterPubkey : Text) (options : QueryOptions) :
    DatabaseResult (PaginatedResult KPostRecord) := do
  let requester ← decodeHexToBytes requesterPubkey
  let limit := options.limit.getD 20
  .ok (endEmpty (paginate limit (typedPost t requester) (fetch contentPosition
    (newestFirst contentPosition) options limit (taggedContents t requester hashtag))))

/-- The nickname and the picture are those of any profile of exactly the author's key. -/
def getContentById (contentId requesterPubkey : Text) :
    DatabaseResult (Option (ContentRecord × Bool)) := do
  let id ← decodeHexToBytes contentId
  let requester ← decodeHexToBytes requesterPubkey
  match t.contents.find? (·.row.transactionId = id) with
  | none => .ok none
  | some c =>
    let nickname := (profileOf t c.row.senderPubkey).map (·.base64EncodedNickname)
    let author := (referenced t [.quote] c.row).bind fun o => profileOf t o.senderPubkey
    let blocked := isBlocked t requester c.row.senderPubkey
    match c.row.contentType, c.row.referencedContentId with
    | .reply, some parent =>
      let record := reply t requester c parent
      .ok (some (.reply { record with userNickname := nickname }, blocked))
    | .reply, none => .error (.queryError "Missing referenced_content_id for reply".toList)
    | .repost, _ => .error (.queryError ("Unknown content type: ".toList ++ contentTypeText .repost))
    | type, _ =>
      let record := { postRecord t requester (mentionTypesOf type) [.quote] c with
        userNickname := nickname
        referencedNickname := author.map (·.base64EncodedNickname) }
      .ok (some (.post (withPoll t requester id (withEdit t id record)), blocked))

/-! ## Votes, tips and channels -/

/-- The votes on a post and its quotes and reposts, under the ids of their own tables. -/
def engagementRows (post : Bytes) : List EngagementActor :=
  ((t.votes.filter (·.row.postId = post)).map fun v =>
    ⟨hexEncode v.row.senderPubkey, hexEncode v.row.transactionId, asU64 v.row.blockTime, v.row.vote, v.id⟩) ++
  (t.contents.filter fun c => c.row.referencedContentId = some post ∧
    (c.row.contentType = .quote ∨ c.row.contentType = .repost)).map fun c =>
      ⟨hexEncode c.row.senderPubkey, hexEncode c.row.transactionId, asU64 c.row.blockTime,
        contentTypeText c.row.contentType, c.id⟩

def engagementOf (post : Bytes) (engagementType : Text) : List EngagementActor :=
  (engagementRows t post).filter fun e => engagementType = "all".toList || e.kind = engagementType

def engagementPosition (e : EngagementActor) : Position := toLex (asI64 e.timestamp, e.id)

/-- The database puts rows of one time and one id in any order. -/
def getPostEngagement (order : List EngagementActor → List EngagementActor) (postId engagementType : Text)
    (options : QueryOptions) : DatabaseResult (PaginatedResult EngagementActor) := do
  let post ← decodeHexToBytes postId
  let limit := options.limit.getD 50
  .ok (paginate limit id (fetch engagementPosition order options limit
    (engagementOf t post engagementType)))

def tipper (tip : Numbered Tip) : Tipper :=
  ⟨hexEncode tip.row.transactionId, hexEncode tip.row.senderPubkey, tip.row.amount,
    (max 0 tip.row.blockTime).toNat, tip.id⟩

/-- The newest tips first; there is no `after`. -/
def getPostTippers (postId : Text) (options : QueryOptions) : DatabaseResult (PaginatedResult Tipper) := do
  let post ← decodeHexToBytes postId
  let limit := options.limit.getD 50
  .ok (paginate limit tipper (fetch (position Tip.blockTime) (newestFirst (position Tip.blockTime))
    { options with after := none } limit (t.tips.filter (·.row.postId = post))))

structure BroadcastMessage where
  txId : Text
  channel : Text
  senderAddress : Text
  content : Text
  blockTime : ℤ
  deriving DecidableEq

def broadcastMessage (m : Numbered ChannelMessage) : BroadcastMessage :=
  ⟨hexEncode m.row.transactionId, m.row.channel, m.row.senderAddress, m.row.content, m.row.blockTime⟩

/-- A page of a channel and whether there is more; `before` is a time without an id. -/
def getBroadcasts (channel : Text) (limit : ℕ) (before : Option ℤ) : List BroadcastMessage × Bool :=
  let rows := t.messages.filter fun m => m.row.channel = channel && before.all (m.row.blockTime < ·)
  let fetched := (newestFirst (position ChannelMessage.blockTime) rows).take (limit + 1)
  ((fetched.take limit).map broadcastMessage, limit < fetched.length)

/-! ## Users -/

def broadcastRecord (b : Numbered Broadcast) : KBroadcastRecord :=
  ⟨b.id, hexEncode b.row.transactionId, asU64 b.row.blockTime, hexEncode b.row.senderPubkey,
    hexEncode b.row.senderSignature, b.row.base64EncodedNickname, b.row.base64EncodedProfileImage,
    b.row.base64EncodedMessage⟩

abbrev broadcastPosition : Numbered Broadcast → Position := position Broadcast.blockTime

/-- A profile, and whether the requester has blocked or follows its key. -/
def userStatus (requester : Bytes) (b : Numbered Broadcast) : KBroadcastRecord × Bool × Bool :=
  (broadcastRecord b, isBlocked t requester b.row.senderPubkey, isFollowed t requester b.row.senderPubkey)

def userPage (selected : Numbered Broadcast → Bool) (requester : Bytes) (options : QueryOptions) :
    PaginatedResult (KBroadcastRecord × Bool × Bool) :=
  let limit := options.limit.getD 20
  paginate limit (userStatus t requester) (fetch broadcastPosition (newestFirst broadcastPosition)
    options limit (t.broadcasts.filter selected))

def getAllUsers (requesterPubkey : Text) (options : QueryOptions) :
    DatabaseResult (PaginatedResult (KBroadcastRecord × Bool × Bool)) := do
  let requester ← decodeHexToBytes requesterPubkey
  .ok (userPage t (fun _ => true) requester options)

/-- `nickname_text`, decoded where it is not filled yet, matches a pattern. -/
def nicknameMatches (pattern : Text) (b : Broadcast) : Bool :=
  match t.nicknameText b.transactionId with
  | some text => t.ilike text pattern
  | none => (textOf b.base64EncodedNickname).any fun text => t.ilike text pattern

/-- The handler has taken the first byte off the key, so a key is matched by the end of its hex. -/
def searchUsers (requesterPubkey : Text) (options : QueryOptions) (searchedUserPubkey : Option Text)
    (searchedUserNickname : Option Text) :
    DatabaseResult (PaginatedResult (KBroadcastRecord × Bool × Bool)) := do
  let requester ← decodeHexToBytes requesterPubkey
  let searched ← searchedUserPubkey.mapM decodeHexToBytes
  .ok (userPage t (fun b =>
    (searched.all fun key => (hexEncode key).isSuffixOf (hexEncode b.row.senderPubkey)) &&
    searchedUserNickname.all fun nickname => nicknameMatches t ('%' :: nickname ++ ['%']) b.row)
    requester options)

def invalidUserKey : Text := "INVALID_USER_KEY".toList

/-- `handle_search_users`: a key of 66 bytes of text that starts with 02 or 03, without these. -/
def searchUsersPaginated (limit : ℕ) (requesterPubkey : Text) (before after : Option Text)
    (searchedUserPubkey searchedUserNickname : Option Text) :
    Except Text (DatabaseResult (PaginatedResult (KBroadcastRecord × Bool × Bool))) :=
  if searchedUserPubkey.all fun key => (key.map Char.utf8Size).sum = 66 &&
      (["02".toList, "03".toList].any (·.isPrefixOf key)) then
    .ok (searchUsers t requesterPubkey ⟨some limit, before, after⟩ (searchedUserPubkey.map (·.drop 2))
      searchedUserNickname)
  else .error invalidUserKey

def countPosted (types : List ContentType) (key : Bytes) : ℕ :=
  t.db.contents.countP fun c => c.senderPubkey = key ∧ c.contentType ∈ types

def searchUsersPosted (requesterPubkey queryText : Text) (options : QueryOptions) :
    DatabaseResult (PaginatedResult (KBroadcastRecord × Bool × Bool × ℕ)) := do
  let requester ← decodeHexToBytes requesterPubkey
  let limit := options.limit.getD 20
  let posted (b : Numbered Broadcast) :=
    countPosted t [.post, .reply, .quote, .poll] b.row.senderPubkey
  let found := t.broadcasts.filter fun b => posted b ≠ 0 &&
    (nicknameMatches t (likePattern queryText) b.row ||
      t.ilike (hexEncode b.row.senderPubkey) (likePattern queryText))
  .ok (paginate limit (fun b => (broadcastRecord b, isBlocked t requester b.row.senderPubkey,
    isFollowed t requester b.row.senderPubkey, posted b))
    (fetch broadcastPosition (newestFirst broadcastPosition) options limit found))

/-- The contents of a key in a window of time. -/
def contentCount (fromTimeMillis toTimeMillis : ℕ) (key : Bytes) : ℕ :=
  t.db.contents.countP fun c => c.senderPubkey = key ∧ asI64 fromTimeMillis ≤ c.blockTime ∧
    c.blockTime ≤ asI64 toTimeMillis

/-- A profile with its flags and its count, under which it is listed. -/
structure ActiveUser where
  record : KBroadcastRecord
  isBlocked : Bool
  isFollowed : Bool
  contentCount : ℕ
  deriving DecidableEq

def activeUser (requester : Bytes) (count : Numbered Broadcast → ℕ) (b : Numbered Broadcast) : ActiveUser :=
  ⟨broadcastRecord b, isBlocked t requester b.row.senderPubkey,
    isFollowed t requester b.row.senderPubkey, count b⟩

/-- `ORDER BY content_count DESC, id DESC` -/
def activity (count : Numbered Broadcast → ℕ) (b : Numbered Broadcast) : Position :=
  toLex ((count b : ℤ), b.id)

instance : HasCompoundCursor ActiveUser := ⟨(·.contentCount), (·.record.id)⟩

def getMostActiveUsers (requesterPubkey : Text) (options : QueryOptions)
    (fromTimeMillis toTimeMillis : ℕ) : DatabaseResult (PaginatedResult ActiveUser) := do
  let requester ← decodeHexToBytes requesterPubkey
  let limit := options.limit.getD 20
  let count (b : Numbered Broadcast) := contentCount t fromTimeMillis toTimeMillis b.row.senderPubkey
  .ok (paginate limit (activeUser t requester count) (fetch (activity count)
    (newestFirst (activity count)) options limit (t.broadcasts.filter fun b => count b ≠ 0)))

/-- The newest profile of the person with the flags and the counts; a person without one is shown by
the key as it was given. -/
def getUserDetails (userPublicKey requesterPubkey : Text) :
    DatabaseResult (KBroadcastRecord × Bool × Bool × ℕ × ℕ × ℕ) := do
  let user ← decodeHexToBytes userPublicKey
  let forms := pubkeyVariants user
  let requester ← decodeHexToBytes requesterPubkey
  let flag (kind : RelationKind) := (t.db.relations kind).any fun r =>
    r.senderPubkey = requester && forms.contains r.targetPubkey
  let status := (flag .block, flag .follow,
    (t.db.relations .follow).countP fun r => forms.contains r.targetPubkey,
    (t.db.relations .follow).countP fun r => forms.contains r.senderPubkey,
    (t.db.relations .block).countP fun r => forms.contains r.senderPubkey)
  match (newestFirst (fun b => toLex (b.row.blockTime, 0))
      (t.broadcasts.filter fun b => forms.contains b.row.senderPubkey)).head? with
  | some b => .ok (broadcastRecord b, status)
  | none => .ok (⟨0, [], 0, userPublicKey, [], [], none, []⟩, status)

/-! ## Relations -/

/-- Every row with the rows that it matches, or alone. -/
def leftJoin {ρ σ : Type} (on : ρ → σ → Bool) (rows : List ρ) (others : List σ) :
    List (ρ × Option σ) :=
  rows.flatMap fun r => match others.filter (on r) with
    | [] => [(r, none)]
    | matching => matching.map fun s => (r, some s)

def relationPosition (r : Numbered Relation × Option Broadcast) : Position :=
  position Relation.blockTime r.1

/-- A relation shown as a profile of one of its keys. -/
def relationRecord (shown : Relation → Bytes) (r : Numbered Relation × Option Broadcast) :
    KBroadcastRecord :=
  ⟨r.1.id, hexEncode r.1.row.transactionId, asU64 r.1.row.blockTime, hexEncode (shown r.1.row),
    hexEncode r.1.row.senderSignature, nicknameOf r.2, imageOf r.2,
    r.2.elim [] (·.base64EncodedMessage)⟩

def relationPage {α : Type} [HasCompoundCursor α] (kind : RelationKind) (selected : Relation → Bool)
    (on : Relation → Broadcast → Bool) (item : Numbered Relation × Option Broadcast → α)
    (options : QueryOptions) : PaginatedResult α :=
  let limit := options.limit.getD 20
  paginate limit item (fetch relationPosition (newestFirst relationPosition) options limit
    (leftJoin (fun r => on r.row) ((t.relations kind).filter fun r => selected r.row) t.db.broadcasts))

/-- The profile of the target, by the x-only key. -/
def ofTarget (r : Relation) (b : Broadcast) : Bool := fromSecond b.senderPubkey = fromSecond r.targetPubkey

/-- The targets of the requester's own rows. -/
def getRelatedByRequester (kind : RelationKind) (requesterPubkey : Text) (options : QueryOptions) :
    DatabaseResult (PaginatedResult KBroadcastRecord) := do
  let requester ← decodeHexToBytes requesterPubkey
  .ok (relationPage t kind (·.senderPubkey = requester) ofTarget (relationRecord (·.targetPubkey)) options)

def getBlockedUsersByRequester := getRelatedByRequester t .block

def getFollowedUsersByRequester := getRelatedByRequester t .follow

def getUsersFollowing (requesterPubkey userPubkey : Text) (options : QueryOptions) :
    DatabaseResult (PaginatedResult (KBroadcastRecord × Bool)) := do
  let user ← decodeHexToBytes userPubkey
  let requester ← decodeHexToBytes requesterPubkey
  .ok (relationPage t .follow (fun r => (pubkeyVariants user).contains r.senderPubkey) ofTarget
    (fun r => (relationRecord (·.targetPubkey) r, isFollowed t requester r.1.row.targetPubkey)) options)

def getUsersFollowers (requesterPubkey userPubkey : Text) (options : QueryOptions) :
    DatabaseResult (PaginatedResult (KBroadcastRecord × Bool)) := do
  let user ← decodeHexToBytes userPubkey
  let requester ← decodeHexToBytes requesterPubkey
  .ok (relationPage t .follow (fun r => (pubkeyVariants user).contains r.targetPubkey)
    (fun r b => b.senderPubkey = r.senderPubkey)
    (fun r => (relationRecord (·.senderPubkey) r, isFollowed t requester r.1.row.senderPubkey)) options)

end KaChatIndexer.KaReads

import KaChatIndexer.ChainWalk
import KaChatIndexer.KaReads

/-!
# Threads

A content with the chain of what it replies to. The walk asks for one parent after another by its id,
so it passes through contents that are served by id: a repost is not, and ends the chain.
-/
namespace KaChatIndexer.KaThreads
open ByteStrings KaText KaStore KaTables KaReads KaPolls CursorTexts ChainWalk
open ScheduledPosts (hexEncode)

structure QuoteData where
  referencedContentId : Text
  referencedMessage : Text
  referencedSenderPubkey : Text
  referencedNickname : Option Text
  referencedProfileImage : Option Text
  deriving DecidableEq

structure ServerPost where
  id : Text
  userPublicKey : Text
  postContent : Text
  signature : Text
  timestamp : ℕ
  repliesCount : ℕ
  upVotesCount : ℕ
  downVotesCount : ℕ
  quotesCount : ℕ
  repostsCount : ℕ
  parentPostId : Option Text
  mentionedPubkeys : List Text
  isUpvoted : Option Bool
  isDownvoted : Option Bool
  userNickname : Option Text
  userProfileImage : Option Text
  blockedUser : Option Bool
  contentType : Option Text
  isQuote : Bool
  quote : Option QuoteData
  editedAt : Option ℕ
  poll : Option PollData
  tipsCount : ℕ
  deriving DecidableEq

/-- The content of a blocked user: the base64 text of ten asterisks. -/
def hiddenContent : Text := "KioqKioqKioqKg==".toList

def ServerPost.fromPostRecord (record : KPostRecord) (isBlocked : Bool) : ServerPost :=
  let quote : Option QuoteData :=
    match record.referencedContentId, record.referencedMessage, record.referencedSenderPubkey with
    | some id, some message, some pubkey =>
      some ⟨id, message, pubkey, record.referencedNickname, record.referencedProfileImage⟩
    | _, _, _ => none
  { id := record.transactionId
    userPublicKey := record.senderPubkey
    postContent := if isBlocked then hiddenContent else record.base64EncodedMessage
    signature := record.senderSignature
    timestamp := record.blockTime
    repliesCount := record.repliesCount.getD 0
    upVotesCount := record.upVotesCount.getD 0
    downVotesCount := record.downVotesCount.getD 0
    quotesCount := record.quotesCount.getD 0
    repostsCount := 0
    parentPostId := none
    mentionedPubkeys := record.mentionedPubkeys
    isUpvoted := record.isUpvoted
    isDownvoted := record.isDownvoted
    userNickname := record.userNickname
    userProfileImage := record.userProfileImage
    blockedUser := some isBlocked
    contentType := record.contentType
    isQuote := quote.isSome
    quote
    editedAt := record.editedAt.map asU64
    poll := record.poll
    tipsCount := record.tipsCount.getD 0 }

def ServerPost.fromReplyRecord (record : KReplyRecord) (isBlocked : Bool) : ServerPost :=
  { id := record.transactionId
    userPublicKey := record.senderPubkey
    postContent := if isBlocked then hiddenContent else record.base64EncodedMessage
    signature := record.senderSignature
    timestamp := record.blockTime
    repliesCount := record.repliesCount.getD 0
    upVotesCount := record.upVotesCount.getD 0
    downVotesCount := record.downVotesCount.getD 0
    quotesCount := record.quotesCount.getD 0
    repostsCount := 0
    parentPostId := some record.postId
    mentionedPubkeys := record.mentionedPubkeys
    isUpvoted := record.isUpvoted
    isDownvoted := record.isDownvoted
    userNickname := record.userNickname
    userProfileImage := record.userProfileImage
    blockedUser := some isBlocked
    contentType := record.contentType
    isQuote := false
    quote := none
    editedAt := record.editedAt.map asU64
    poll := none
    tipsCount := record.tipsCount.getD 0 }

/-- A post keeps a null parent, a reply carries the id of what it replies to. -/
def contentToServerPost (record : ContentRecord) (isBlocked : Bool) : ServerPost :=
  match record with
  | .post r => .fromPostRecord r isBlocked
  | .reply r => .fromReplyRecord r isBlocked
  | .vote v =>
    { id := v.transactionId
      userPublicKey := v.senderPubkey
      postContent := []
      signature := v.senderSignature
      timestamp := v.blockTime
      repliesCount := 0
      upVotesCount := 0
      downVotesCount := 0
      quotesCount := 0
      repostsCount := 0
      parentPostId := some v.postId
      mentionedPubkeys := []
      isUpvoted := none
      isDownvoted := none
      userNickname := v.userNickname
      userProfileImage := v.userProfileImage
      blockedUser := some isBlocked
      contentType := some "vote".toList
      isQuote := false
      quote := none
      editedAt := none
      poll := none
      tipsCount := 0 }

structure ApiError where
  error : Text
  code : Text
  deriving DecidableEq

structure GetThreadResponse where
  ancestors : List ServerPost
  post : ServerPost
  deriving DecidableEq

def isHexText (bytes : ℕ) (t : Text) : Bool :=
  (t.map Char.utf8Size).sum = bytes && t.all fun c => (hexDigit c).isSome

def validateContentRequest (contentId requesterPubkey : Text) : Except ApiError Unit :=
  if isHexText 64 contentId = false then
    .error ⟨"Invalid content ID format. Must be 64 hex characters.".toList, "INVALID_POST_ID".toList⟩
  else if (isHexText 66 requesterPubkey &&
      ["02".toList, "03".toList].any (·.isPrefixOf requesterPubkey)) = false then
    .error ⟨"Invalid requester public key format. Must be 66 hex characters starting with 02 or 03.".toList,
      "INVALID_USER_KEY".toList⟩
  else .ok ()

def maxAncestors : ℕ := 25

/-- The hard stop against a corrupt chain. -/
def maxWalk : ℕ := 200

section
variable (t : Tables)

/-- A parent as the walk reads it; a failed read ends the walk like a parent that is not indexed. -/
def readParent (requesterPubkey parentId : Text) : Option ServerPost :=
  match getContentById t parentId requesterPubkey with
  | .ok (some (record, isBlocked)) => some (contentToServerPost record isBlocked)
  | _ => none

def getThread (contentId requesterPubkey : Text) : Except ApiError GetThreadResponse := do
  validateContentRequest contentId requesterPubkey
  match getContentById t contentId requesterPubkey with
  | .ok none => .error ⟨"Content not found".toList, "NOT_FOUND".toList⟩
  | .error _ => .error ⟨"Internal server error".toList, "DATABASE_ERROR".toList⟩
  | .ok (some (record, isBlocked)) =>
    let post := contentToServerPost record isBlocked
    let parents := walk (readParent t requesterPubkey) ServerPost.parentPostId maxWalk [post.id]
      post.parentPostId
    .ok ⟨(parents.take maxAncestors).reverse, post⟩

/-! ## The rows of a thread -/

/-- A repost is not served by its id, and a reply only with its parent. -/
def served (c : Numbered Content) : Bool :=
  match c.row.contentType, c.row.referencedContentId with
  | .repost, _ => false
  | .reply, none => false
  | _, _ => true

def contentKey (c : Numbered Content) : Bytes := c.row.transactionId

/-- The id of the parent: only a reply has one. -/
def parentRef (c : Numbered Content) : Option Bytes :=
  if c.row.contentType = .reply then c.row.referencedContentId else none

def rowOf (id : Bytes) : Option (Numbered Content) := t.contents.find? fun c => contentKey c = id

def servedRow (id : Bytes) : Option (Numbered Content) := (rowOf t id).filter served

/-- The post that shows a row of the table. -/
def Renders (requesterPubkey : Text) (c : Numbered Content) (post : ServerPost) : Prop :=
  c ∈ t.contents ∧ readParent t requesterPubkey (hexEncode (contentKey c)) = some post

variable {t} {requesterPubkey contentId : Text} {c : Numbered Content} {id : Bytes} {post : ServerPost}

theorem rowOf_key (h : rowOf t id = some c) : c ∈ t.contents ∧ contentKey c = id :=
  ⟨List.mem_of_find?_eq_some h, by simpa using List.find?_some h⟩

theorem rowOf_mem (hc : c ∈ t.contents) : rowOf t (contentKey c) = some c := by
  cases h : rowOf t (contentKey c) with
  | none => simpa using List.find?_eq_none.mp h c hc
  | some d =>
    obtain ⟨hd, hkey⟩ := rowOf_key h
    have hnodup : (t.contents.map contentKey).Nodup := by
      have hrows : t.contents.map contentKey = t.db.contents.map (·.transactionId) := by
        rw [← t.contentIds.numbered_rows, List.map_map]
        rfl
      rw [hrows]
      exact t.contentKeys
    rw [List.inj_on_of_nodup_map hnodup hd hc hkey]

theorem getContentById_none {requester : Bytes} (hrequester : hexDecode requesterPubkey = some requester)
    (hid : hexDecode contentId = some id) (hrow : rowOf t id = none) :
    getContentById t contentId requesterPubkey = .ok none := by
  have hfind : t.contents.find? (·.row.transactionId = id) = none := hrow
  simp only [getContentById, decodeHexToBytes, hid, hrequester, bind, Except.bind, hfind]

theorem withPoll_id (t : Tables) (requester content : Bytes) (record : KPostRecord) :
    (withPoll t requester content record).transactionId = record.transactionId := by
  unfold withPoll
  split <;> rfl

/-- The record of a row has its id, and that of its parent. -/
theorem getContentById_served {requester : Bytes}
    (hrequester : hexDecode requesterPubkey = some requester) (hid : hexDecode contentId = some id)
    (hrow : rowOf t id = some c) (hserved : served c = true) :
    ∃ record isBlocked, getContentById t contentId requesterPubkey = .ok (some (record, isBlocked)) ∧
      (contentToServerPost record isBlocked).id = hexEncode id ∧
      (contentToServerPost record isBlocked).parentPostId = (parentRef c).map hexEncode := by
  obtain ⟨-, rfl⟩ := rowOf_key hrow
  have hfind : t.contents.find? (·.row.transactionId = contentKey c) = some c := hrow
  unfold served at hserved
  simp only [getContentById, decodeHexToBytes, hid, hrequester, bind, Except.bind, hfind, parentRef]
  cases htype : c.row.contentType <;> cases hparent : c.row.referencedContentId <;>
    rw [htype, hparent] at hserved
  case reply.none | repost.none | repost.some => cases hserved
  case reply.some => exact ⟨_, _, rfl, rfl, rfl⟩
  all_goals exact ⟨_, _, rfl, withPoll_id t requester .., rfl⟩

theorem getContentById_other {requester : Bytes}
    (hrequester : hexDecode requesterPubkey = some requester) (hid : hexDecode contentId = some id)
    (hrow : rowOf t id = some c) (hserved : served c = false) :
    ∃ e, getContentById t contentId requesterPubkey = .error e := by
  have hfind : t.contents.find? (·.row.transactionId = id) = some c := hrow
  unfold served at hserved
  simp only [getContentById, decodeHexToBytes, hid, hrequester, bind, Except.bind, hfind]
  cases htype : c.row.contentType <;> cases hparent : c.row.referencedContentId <;>
    rw [htype, hparent] at hserved
  case reply.none | repost.none | repost.some => exact ⟨_, rfl⟩
  all_goals cases hserved

/-- A text of hexadecimal digits is read as bytes. -/
theorem hexDecode_hexText {n : ℕ} {text : Text} (h : isHexText (n * 2) text = true) :
    (hexDecode text).isSome := by
  rw [isHexText, Bool.and_eq_true, decide_eq_true_eq, List.all_eq_true] at h
  have hsizes : text.map Char.utf8Size = List.replicate text.length 1 := by
    rw [List.map_eq_replicate_iff]
    exact fun d hd => utf8Size_hex (h.2 d hd)
  rw [hsizes, List.sum_replicate_nat, mul_one] at h
  exact KaText.hexDecode_isSome n h.1 h.2

theorem validate_ok (h : validateContentRequest contentId requesterPubkey = .ok ()) :
    (hexDecode contentId).isSome ∧ (hexDecode requesterPubkey).isSome := by
  unfold validateContentRequest at h
  split at h
  · cases h
  · next hid =>
    split at h
    · cases h
    · next hkey =>
      rw [Bool.not_eq_false] at hid hkey
      exact ⟨hexDecode_hexText (n := 32) hid, hexDecode_hexText (n := 33) (Bool.and_eq_true_iff.mp hkey).1⟩

/-- The posts that the walk reads are those of the rows. -/
theorem readParent_rel (hrequester : (hexDecode requesterPubkey).isSome) (id : Bytes) :
    Option.Rel (Renders t requesterPubkey) (servedRow t id) (readParent t requesterPubkey (hexEncode id)) := by
  obtain ⟨requester, hrequester⟩ := Option.isSome_iff_exists.mp hrequester
  have hid := hexDecode_hexEncode id
  unfold servedRow
  cases hrow : rowOf t id with
  | none =>
    have hread : readParent t requesterPubkey (hexEncode id) = none := by
      rw [readParent, getContentById_none hrequester hid hrow]
    rw [hread]
    exact .none
  | some c =>
    cases hserved : served c with
    | false =>
      obtain ⟨e, he⟩ := getContentById_other hrequester hid hrow hserved
      have hread : readParent t requesterPubkey (hexEncode id) = none := by rw [readParent, he]
      rw [hread, Option.filter_some, hserved]
      exact .none
    | true =>
      obtain ⟨record, isBlocked, hget, -, -⟩ := getContentById_served hrequester hid hrow hserved
      obtain ⟨hc, rfl⟩ := rowOf_key hrow
      have hread : readParent t requesterPubkey (hexEncode (contentKey c)) =
          some (contentToServerPost record isBlocked) := by rw [readParent, hget]
      rw [hread, Option.filter_some, hserved]
      exact .some ⟨hc, hread⟩

/-- A post has the id of its row, and the id of its parent. -/
theorem renders_ids (hrequester : (hexDecode requesterPubkey).isSome)
    (h : Renders t requesterPubkey c post) :
    post.id = hexEncode (contentKey c) ∧ post.parentPostId = (parentRef c).map hexEncode := by
  obtain ⟨requester, hrequester⟩ := Option.isSome_iff_exists.mp hrequester
  obtain ⟨hc, hread⟩ := h
  have hid := hexDecode_hexEncode (contentKey c)
  cases hserved : served c with
  | false =>
    obtain ⟨e, he⟩ := getContentById_other hrequester hid (rowOf_mem hc) hserved
    rw [readParent, he] at hread
    cases hread
  | true =>
    obtain ⟨record, isBlocked, hget, hkey, hparent⟩ :=
      getContentById_served hrequester hid (rowOf_mem hc) hserved
    rw [readParent, hget] at hread
    obtain rfl := Option.some.inj hread
    exact ⟨hkey, hparent⟩

/-! ## The walk -/

theorem getContentById_congr {id id' : Text} (h : hexDecode id = hexDecode id') :
    getContentById t id requesterPubkey = getContentById t id' requesterPubkey := by
  have hdecode : decodeHexToBytes id = decodeHexToBytes id' := by
    rw [decodeHexToBytes, decodeHexToBytes, h]
  rw [getContentById, getContentById, hdecode]

/-- The walk meets the posts of the rows on the path. -/
theorem walk_posts (hrequester : (hexDecode requesterPubkey).isSome)
    (hpost : Renders t requesterPubkey c post) :
    List.Forall₂ (Renders t requesterPubkey)
      (walk (servedRow t) parentRef maxWalk [contentKey c] (parentRef c))
      (walk (readParent t requesterPubkey) ServerPost.parentPostId maxWalk [post.id]
        post.parentPostId) := by
  obtain ⟨hkey, hparent⟩ := renders_ids hrequester hpost
  rw [hkey, hparent]
  exact walk_rel (fun _ _ h => hexEncode_inj.mp h) (fun id => readParent_rel hrequester id)
    (fun _ _ h => (renders_ids hrequester h).2) maxWalk [contentKey c] (parentRef c)

theorem servedRow_key (id : Bytes) (c : Numbered Content) (h : servedRow t id = some c) :
    contentKey c = id :=
  (rowOf_key (Option.filter_eq_some_iff.mp h).1).2

theorem getThread_served (hvalid : validateContentRequest contentId requesterPubkey = .ok ())
    (hid : hexDecode contentId = some (contentKey c)) (hc : c ∈ t.contents) (hserved : served c = true) :
    ∃ rows answer, getThread t contentId requesterPubkey = .ok answer ∧
      Path (servedRow t) parentRef contentKey maxAncestors c rows ∧
      Renders t requesterPubkey c answer.post ∧
      List.Forall₂ (Renders t requesterPubkey) rows answer.ancestors.reverse := by
  have hkeys := (validate_ok hvalid).2
  obtain ⟨requester, hrequester⟩ := Option.isSome_iff_exists.mp hkeys
  obtain ⟨record, isBlocked, hget, -, -⟩ :=
    getContentById_served hrequester hid (rowOf_mem hc) hserved
  have hpost : Renders t requesterPubkey c (contentToServerPost record isBlocked) := by
    refine ⟨hc, ?_⟩
    rw [readParent, getContentById_congr (hid.trans (hexDecode_hexEncode _).symm).symm, hget]
  have hposts := List.forall₂_take maxAncestors (walk_posts hkeys hpost)
  let post := contentToServerPost record isBlocked
  let parents := walk (readParent t requesterPubkey) ServerPost.parentPostId maxWalk [post.id]
    post.parentPostId
  refine ⟨_, ⟨(parents.take maxAncestors).reverse, post⟩, ?_,
    (walk_path servedRow_key maxWalk c).take (by decide), hpost, ?_⟩
  · unfold getThread
    rw [hvalid, hget]
    rfl
  · rw [List.reverse_reverse]
    exact hposts

theorem getThread_other (hvalid : validateContentRequest contentId requesterPubkey = .ok ())
    (hid : hexDecode contentId = some (contentKey c)) (hc : c ∈ t.contents) (hserved : served c = false) :
    getThread t contentId requesterPubkey =
      .error ⟨"Internal server error".toList, "DATABASE_ERROR".toList⟩ := by
  obtain ⟨requester, hrequester⟩ := Option.isSome_iff_exists.mp (validate_ok hvalid).2
  obtain ⟨e, he⟩ := getContentById_other hrequester hid (rowOf_mem hc) hserved
  unfold getThread
  rw [hvalid, he]
  rfl

end

def sampleRow (id : UInt8) (kind : ContentType) (parent : Option UInt8) : Content :=
  ⟨List.replicate 32 id, 5, 2 :: List.replicate 32 0x22, List.replicate 64 0xbb, "4oGg".toList, kind,
    parent.map (List.replicate 32), none⟩

/-- A post and a repost of it, each with a reply. -/
def threadDb : Db :=
  { Db.empty with
    contents := [sampleRow 1 .post none, sampleRow 2 .reply (some 1), sampleRow 3 .repost (some 1),
      sampleRow 4 .reply (some 3)] }

def threadTables : Tables := Tables.ofDb threadDb (by decide +kernel)

def sampleReader : Text := "02".toList ++ List.replicate 64 '1'

def numberedRow (id : ℤ) (kind : ContentType) (parent : Option UInt8) : Numbered Content :=
  ⟨id, sampleRow id.toNat.toUInt8 kind parent⟩

theorem thread_rows : threadTables.contents = [numberedRow 1 .post none, numberedRow 2 .reply (some 1),
    numberedRow 3 .repost (some 1), numberedRow 4 .reply (some 3)] := rfl

end KaChatIndexer.KaThreads

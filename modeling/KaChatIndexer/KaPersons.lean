import KaChatIndexer.KaNotifications

/-!
# Two forms of a key

A person is asked about, or asks, under `02` or `03` and an x-only key. Reads about a person look for both
forms, but for the mentions; reads for a person look for the rows of the form that is given. So the forms
are one person exactly when nothing is stored under either that such a read would find.
-/
namespace KaChatIndexer.KaPersons
open ByteStrings CursorTexts KaText KaStore KaHashtags KaPolls KaTables KaReads KaPaging KaNotifications
open ScheduledPosts (hexEncode)

/-! ## Reads under both forms -/

/-- The read answers alike under `02` and `03`. -/
def SameFor {β : Type} (x : Text) (read : Text → β) : Prop := read ('0' :: '2' :: x) = read ('0' :: '3' :: x)

section
variable (t : Tables)

/-- The reads about a person, and then those for a person, answer alike under both forms of the key. -/
structure OnePerson (x : Text) : Prop where
  posts : ∀ requester options, SameFor x fun key => getPostsByUser t key requester options
  replies : ∀ requester options, SameFor x fun key => getRepliesByUser t key requester options
  details : ∀ requester, SameFor x fun key => getUserDetails t key requester
  following : ∀ requester options, SameFor x fun key => getUsersFollowing t requester key options
  followers : ∀ requester options, SameFor x fun key => getUsersFollowers t requester key options
  mentioning : ∀ requester options, SameFor x fun key => getContentsMentioningUser t key requester options
  searched : ∀ limit requester before after nickname, SameFor x fun key =>
    searchUsersPaginated t limit requester before after (some key) nickname
  allPosts : ∀ options, SameFor x fun key => getAllPosts t key options
  searchPosts : ∀ queryText options, SameFor x fun key => KaReads.searchPosts t key queryText options
  contentFollowing : ∀ options, SameFor x fun key => getContentFollowing t key options
  contentsMentioning : ∀ user options, SameFor x fun key => getContentsMentioningUser t user key options
  contentById : ∀ id, SameFor x fun key => getContentById t id key
  repliesByPost : ∀ post options, SameFor x fun key => getRepliesByPostId t post key options
  repliesByUser : ∀ user options, SameFor x fun key => getRepliesByUser t user key options
  postsByUser : ∀ user options, SameFor x fun key => getPostsByUser t user key options
  hashtagContent : ∀ hashtag options, SameFor x fun key => getHashtagContent t hashtag key options
  allUsers : ∀ options, SameFor x fun key => getAllUsers t key options
  mostActive : ∀ options fromTimeMillis toTimeMillis, SameFor x fun key =>
    getMostActiveUsers t key options fromTimeMillis toTimeMillis
  searchUsers : ∀ limit before after user nickname, SameFor x fun key =>
    searchUsersPaginated t limit key before after user nickname
  searchPosted : ∀ queryText options, SameFor x fun key => searchUsersPosted t key queryText options
  userDetails : ∀ user, SameFor x fun key => getUserDetails t user key
  related : ∀ kind options, SameFor x fun key => getRelatedByRequester t kind key options
  usersFollowing : ∀ user options, SameFor x fun key => getUsersFollowing t key user options
  usersFollowers : ∀ user options, SameFor x fun key => getUsersFollowers t key user options
  notifications : ∀ options, SameFor x fun key => getNotifications t key options
  notificationCount : ∀ after, SameFor x fun key => getNotificationCount t key after

/-- Both forms of an x-only key. -/
def forms (X : Bytes) : List Bytes := [2 :: X, 3 :: X]

/-- A content that some read shows with the votes of who asks: a reply without a parent is shown where it
has a hashtag, a repost nowhere. -/
def Shown (c : Content) : Prop :=
  isPost c = true ∨ c.contentType = .reply ∧
    (c.referencedContentId ≠ none ∨ ∃ h ∈ t.derived.hashtags, h.contentId = c.transactionId)

/-- Nothing is stored under a form of the key that a read under the other would miss: no block or follow,
no vote on a content that is shown, and no pick in a poll or mention that the forms do not share; and
somebody has a profile under one of them. -/
structure Unmarked (X : Bytes) : Prop where
  unrelated : ∀ kind, ∀ r ∈ t.db.relations kind, r.senderPubkey ∉ forms X
  unvoted : ∀ c ∈ t.db.contents, Shown t c → ∀ v ∈ t.db.votes, v.postId = c.transactionId →
    v.vote = "upvote".toList ∨ v.vote = "downvote".toList → v.senderPubkey ∉ forms X
  picked : ∀ c ∈ t.db.contents, isPost c = true → ∀ poll ∈ t.db.polls, poll.postId = c.transactionId →
    keyChoice (votesOn c.transactionId t.db) (2 :: X) = keyChoice (votesOn c.transactionId t.db) (3 :: X)
  mentioned : ∀ c ∈ t.db.contents, mentions t (2 :: X) c = mentions t (3 :: X) c
  profile : ∃ b ∈ t.db.broadcasts, b.senderPubkey ∈ forms X

end

/-! ## What the requester's key decides -/

section
variable {t : Tables} {x : Text} {X : Bytes}

theorem decode_two (hx : hexDecode x = some X) : decodeHexToBytes ('0' :: '2' :: x) = .ok (2 :: X) := by
  rw [decodeHexToBytes, hexDecode, hx]
  rfl

theorem decode_three (hx : hexDecode x = some X) : decodeHexToBytes ('0' :: '3' :: x) = .ok (3 :: X) := by
  rw [decodeHexToBytes, hexDecode, hx]
  rfl

/-- A read that decodes the key first is alike when its answers from the bytes are. -/
theorem same_of_decoded {β : Type} (hx : hexDecode x = some X) {answer : Bytes → DatabaseResult β}
    (h : answer (2 :: X) = answer (3 :: X)) :
    SameFor x fun key => decodeHexToBytes key >>= answer := by
  rw [SameFor, decode_two hx, decode_three hx]
  exact h

/-- The key may come after other keys. -/
theorem same_of_bind {α β : Type} {first : DatabaseResult α} {read : Text → α → DatabaseResult β}
    (h : ∀ a, SameFor x fun key => read key a) : SameFor x fun key => first >>= read key := by
  cases first with
  | error e => rfl
  | ok a => exact h a

theorem variants_two (hlength : X.length = 32) : pubkeyVariants (2 :: X) = forms X := by
  rw [pubkeyVariants, if_pos ⟨hlength, Or.inl rfl⟩]
  rfl

theorem variants_three (hlength : X.length = 32) : pubkeyVariants (3 :: X) = forms X := by
  rw [pubkeyVariants, if_pos ⟨hlength, Or.inr rfl⟩]
  rfl

theorem two_mem : 2 :: X ∈ forms X := List.mem_cons_self

theorem three_mem : 3 :: X ∈ forms X := List.mem_cons_of_mem _ List.mem_cons_self

/-- A key without rows of its own has no relation to anybody. -/
theorem related_none {kind : RelationKind}
    (hunrelated : ∀ r ∈ t.db.relations kind, r.senderPubkey ∉ forms X) {requester : Bytes}
    (hform : requester ∈ forms X) : isRelated t requester kind = fun _ => false := by
  funext author
  refine List.any_eq_false.mpr fun r hr hrelates => ?_
  obtain ⟨hsender, -⟩ := of_decide_eq_true hrelates
  exact hunrelated r hr (hsender ▸ hform)

theorem Unmarked.blocked (h : Unmarked t X) {requester : Bytes} (hform : requester ∈ forms X) :
    isBlocked t requester = fun _ => false := related_none (h.unrelated .block) hform

theorem Unmarked.followed (h : Unmarked t X) {requester : Bytes} (hform : requester ∈ forms X) :
    isFollowed t requester = fun _ => false := related_none (h.unrelated .follow) hform

theorem Unmarked.voted (h : Unmarked t X) {c : Content} (hc : c ∈ t.db.contents) (hshown : Shown t c)
    {vote : Text} (hvote : vote = "upvote".toList ∨ vote = "downvote".toList) :
    hasVoted t (2 :: X) vote c.transactionId = hasVoted t (3 :: X) vote c.transactionId := by
  have hnone {requester : Bytes} (hform : requester ∈ forms X) :
      hasVoted t requester vote c.transactionId = false := by
    refine List.any_eq_false.mpr fun v hv hvoted => ?_
    obtain ⟨hpost, hkind, hsender⟩ := of_decide_eq_true hvoted
    exact h.unvoted c hc hshown v hv hpost (hkind ▸ hvote) (hsender ▸ hform)
  rw [hnone two_mem, hnone three_mem]

theorem Unmarked.poll (h : Unmarked t X) {c : Content} (hc : c ∈ t.db.contents) (hpost : isPost c = true) :
    enrichPolls c.transactionId (2 :: X) t.db = enrichPolls c.transactionId (3 :: X) t.db := by
  unfold enrichPolls
  cases hpoll : t.db.polls.find? (·.postId = c.transactionId) with
  | none => rfl
  | some poll =>
    have hfound := List.find?_some hpoll
    have hpicked := h.picked c hc hpost poll (List.mem_of_find?_eq_some hpoll) (of_decide_eq_true hfound)
    unfold keyChoice at hpicked
    simp only [Option.map_some, if_neg (List.cons_ne_nil _ _), hpicked]

/-! ## Records -/

theorem content_row {c : Numbered Content} (h : c ∈ t.contents) : c.row ∈ t.db.contents :=
  t.contentIds.row_mem h

/-- The requester is seen in the votes of a record alone. -/
theorem postRecord_votes (requester other : Bytes) (mentionTypes : List MentionType)
    (quoting : List ContentType) (c : Numbered Content) :
    postRecord t requester mentionTypes quoting c =
      { postRecord t other mentionTypes quoting c with
        isUpvoted := some (hasVoted t requester "upvote".toList c.row.transactionId)
        isDownvoted := some (hasVoted t requester "downvote".toList c.row.transactionId) } := rfl

theorem replyRecord_votes (requester other : Bytes) (c : Numbered Content) (post : Bytes) :
    replyRecord t requester c post =
      { replyRecord t other c post with
        isUpvoted := some (hasVoted t requester "upvote".toList c.row.transactionId)
        isDownvoted := some (hasVoted t requester "downvote".toList c.row.transactionId) } := rfl

theorem Unmarked.postRecord (h : Unmarked t X) {c : Numbered Content} (hc : c ∈ t.contents)
    (hshown : Shown t c.row) (mentionTypes : List MentionType) (quoting : List ContentType) :
    postRecord t (2 :: X) mentionTypes quoting c = postRecord t (3 :: X) mentionTypes quoting c := by
  rw [postRecord_votes (2 :: X) (3 :: X), h.voted (content_row hc) hshown (Or.inl rfl),
    h.voted (content_row hc) hshown (Or.inr rfl), ← postRecord_votes]

theorem Unmarked.replyRecord (h : Unmarked t X) {c : Numbered Content} (hc : c ∈ t.contents)
    (hshown : Shown t c.row) (post : Bytes) :
    replyRecord t (2 :: X) c post = replyRecord t (3 :: X) c post := by
  rw [replyRecord_votes (2 :: X) (3 :: X), h.voted (content_row hc) hshown (Or.inl rfl),
    h.voted (content_row hc) hshown (Or.inr rfl), ← replyRecord_votes]

theorem Unmarked.feedPost (h : Unmarked t X) {c : Numbered Content} (hc : c ∈ t.contents)
    (hpost : isPost c.row = true) : feedPost t (2 :: X) c = feedPost t (3 :: X) c := by
  unfold KaReads.feedPost withPoll
  rw [h.postRecord hc (Or.inl hpost), h.poll (content_row hc) hpost]

theorem Unmarked.typedPost (h : Unmarked t X) {c : Numbered Content} (hc : c ∈ t.contents)
    (hshown : Shown t c.row) : typedPost t (2 :: X) c = typedPost t (3 :: X) c := by
  unfold KaReads.typedPost
  rw [h.postRecord hc hshown]

theorem Unmarked.reply (h : Unmarked t X) {c : Numbered Content} (hc : c ∈ t.contents)
    (hshown : Shown t c.row) (post : Bytes) : reply t (2 :: X) c post = reply t (3 :: X) c post := by
  unfold KaReads.reply
  rw [h.replyRecord hc hshown]

theorem Unmarked.mentionRecord (h : Unmarked t X) {c : Numbered Content} (hc : c ∈ t.contents) :
    mentionRecord t (2 :: X) c = mentionRecord t (3 :: X) c := by
  unfold KaReads.mentionRecord
  cases htype : c.row.contentType with
  | post =>
    have hshown : Shown t c.row := Or.inl (by rw [isPost, htype]; rfl)
    simp only [h.postRecord hc hshown]
  | quote =>
    have hshown : Shown t c.row := Or.inl (by rw [isPost, htype]; rfl)
    simp only [h.postRecord hc hshown]
  | reply =>
    cases hparent : c.row.referencedContentId with
    | none => rfl
    | some parent =>
      have hshown : Shown t c.row := Or.inr ⟨htype, Or.inl (by rw [hparent]; exact Option.some_ne_none _)⟩
      simp only [h.replyRecord hc hshown]
  | repost => rfl
  | poll => rfl

/-! ## Pages -/

theorem mapM_congr {ρ α : Type} {item item' : ρ → DatabaseResult α} {rows : List ρ}
    (h : ∀ r ∈ rows, item r = item' r) : rows.mapM item = rows.mapM item' := by
  induction rows with
  | nil => rfl
  | cons r rows ih =>
    rw [List.mapM_cons, List.mapM_cons, h r List.mem_cons_self,
      ih fun r' hr' => h r' (List.mem_cons_of_mem r hr')]

section
variable {ρ α : Type} [HasCompoundCursor α]

theorem fetch_mem {place : ρ → Position} {options : QueryOptions} {limit : ℕ} {rows : List ρ} {r : ρ}
    (h : r ∈ fetch place (newestFirst place) options limit rows) : r ∈ rows := by
  have hmem := (newestFirst_ordered place _).perm.mem_iff.mp (List.mem_of_mem_take h)
  exact (List.mem_filter.mp hmem).1

theorem paginate_congr {item item' : ρ → α} {limit : ℕ} {fetched : List ρ}
    (h : ∀ r ∈ fetched, item r = item' r) : paginate limit item fetched = paginate limit item' fetched := by
  unfold paginate
  rw [List.map_congr_left fun r hr => h r (List.mem_of_mem_take hr)]

theorem contentPage_congr {selected : Content → Bool} {item item' : Numbered Content → α}
    (h : ∀ c ∈ t.contents, selected c.row = true → item c = item' c) (options : QueryOptions) :
    contentPage t selected item options = contentPage t selected item' options := by
  refine paginate_congr fun c hc => ?_
  obtain ⟨hmem, hselected⟩ := List.mem_filter.mp (fetch_mem hc)
  exact h c hmem hselected

theorem contentPageM_congr {selected : Content → Bool} {item item' : Numbered Content → DatabaseResult α}
    (h : ∀ c ∈ t.contents, selected c.row = true → item c = item' c) (options : QueryOptions) :
    contentPageM t selected item options = contentPageM t selected item' options := by
  have hitems : ((fetch contentPosition (newestFirst contentPosition) options (options.limit.getD 20)
      (t.contents.filter fun c => selected c.row)).take (options.limit.getD 20)).mapM item =
      ((fetch contentPosition (newestFirst contentPosition) options (options.limit.getD 20)
        (t.contents.filter fun c => selected c.row)).take (options.limit.getD 20)).mapM item' := by
    refine mapM_congr fun c hc => ?_
    obtain ⟨hmem, hselected⟩ := List.mem_filter.mp (fetch_mem (List.mem_of_mem_take hc))
    exact h c hmem hselected
  unfold contentPageM
  simp only [hitems]

end

/-! ## Reads about a person -/

variable (t) in
theorem posts_same (hx : hexDecode x = some X) (hlength : X.length = 32) (requester : Text)
    (options : QueryOptions) : SameFor x fun key => getPostsByUser t key requester options := by
  refine same_of_decoded hx ?_
  simp only [variants_two hlength, variants_three hlength]

variable (t) in
theorem replies_same (hx : hexDecode x = some X) (hlength : X.length = 32) (requester : Text)
    (options : QueryOptions) : SameFor x fun key => getRepliesByUser t key requester options := by
  refine same_of_decoded hx ?_
  simp only [variants_two hlength, variants_three hlength]

variable (t) in
theorem following_same (hx : hexDecode x = some X) (hlength : X.length = 32) (requester : Text)
    (options : QueryOptions) : SameFor x fun key => getUsersFollowing t requester key options := by
  refine same_of_decoded hx ?_
  simp only [variants_two hlength, variants_three hlength]

variable (t) in
theorem followers_same (hx : hexDecode x = some X) (hlength : X.length = 32) (requester : Text)
    (options : QueryOptions) : SameFor x fun key => getUsersFollowers t requester key options := by
  refine same_of_decoded hx ?_
  simp only [variants_two hlength, variants_three hlength]

variable (t x) in
/-- Without their first byte the keys are one. -/
theorem searched_same (limit : ℕ) (requester : Text) (before after nickname : Option Text) :
    SameFor x fun key => searchUsersPaginated t limit requester before after (some key) nickname := by
  rfl

theorem details_same (h : Unmarked t X) (hx : hexDecode x = some X) (hlength : X.length = 32)
    (requester : Text) : SameFor x fun key => getUserDetails t key requester := by
  rw [SameFor, getUserDetails, getUserDetails, decode_two hx, decode_three hx]
  simp only [bind, Except.bind, variants_two hlength, variants_three hlength]
  cases decodeHexToBytes requester with
  | error e => rfl
  | ok requester =>
    obtain ⟨b, hb, hform⟩ := h.profile
    obtain ⟨id, hid⟩ := t.broadcastIds.exists_numbered hb
    cases hnewest : (newestFirst (fun b => toLex (b.row.blockTime, 0))
        (t.broadcasts.filter fun b => (forms X).contains b.row.senderPubkey)).head? with
    | some b => rfl
    | none =>
      have hprofile : ⟨id, b⟩ ∈ t.broadcasts.filter fun b => (forms X).contains b.row.senderPubkey :=
        List.mem_filter.mpr ⟨hid, List.contains_iff_mem.mpr hform⟩
      have hempty := (newestFirst_ordered (fun b : Numbered Broadcast => toLex (b.row.blockTime, 0))
        _).perm.mem_iff.mpr hprofile
      rw [List.head?_eq_none_iff.mp hnewest] at hempty
      cases hempty

theorem mentioning_same (h : Unmarked t X) (hx : hexDecode x = some X) (requester : Text)
    (options : QueryOptions) : SameFor x fun key => getContentsMentioningUser t key requester options := by
  refine same_of_decoded hx ?_
  cases decodeHexToBytes requester with
  | error e => rfl
  | ok requester =>
    have hrows : (t.contents.filter fun c => mentions t (2 :: X) c.row &&
        !isBlocked t requester c.row.senderPubkey) = t.contents.filter fun c =>
          mentions t (3 :: X) c.row && !isBlocked t requester c.row.senderPubkey :=
      List.filter_congr fun c hc => by rw [h.mentioned c.row (content_row hc)]
    simp only [bind, Except.bind, contentPageM, hrows]

/-! ## Reads for a person -/

theorem feed_same (h : Unmarked t X) (hx : hexDecode x = some X) (contentSearch : Option Text)
    (options : QueryOptions) : SameFor x fun key => queryAllPosts t key contentSearch options := by
  have hselected : ofFeed t (2 :: X) contentSearch = ofFeed t (3 :: X) contentSearch := by
    funext c
    rw [ofFeed, ofFeed, h.blocked two_mem, h.blocked three_mem]
  refine same_of_decoded hx ?_
  rw [hselected]
  refine congrArg Except.ok (contentPage_congr (fun c hc hfeed => h.feedPost hc ?_) options)
  rw [ofFeed, Bool.and_eq_true, Bool.and_eq_true] at hfeed
  exact hfeed.1.1

theorem contentFollowing_same (h : Unmarked t X) (hx : hexDecode x = some X) (options : QueryOptions) :
    SameFor x fun key => getContentFollowing t key options := by
  have hselected {requester : Bytes} (hform : requester ∈ forms X) :
      ofFollowed t requester = fun _ => false := by
    funext c
    rw [ofFollowed, h.followed hform]
    rfl
  refine same_of_decoded hx ?_
  rw [hselected two_mem, hselected three_mem]
  refine congrArg (fun page => Except.ok (endEmpty page)) (contentPage_congr (fun c _ hnone => ?_) options)
  cases hnone

theorem contentsMentioning_same (h : Unmarked t X) (hx : hexDecode x = some X) (user : Text)
    (options : QueryOptions) : SameFor x fun key => getContentsMentioningUser t user key options := by
  refine same_of_bind fun mentioned => same_of_decoded hx ?_
  rw [h.blocked two_mem, h.blocked three_mem]
  refine contentPageM_congr (fun c hc _ => ?_) options
  rw [h.mentionRecord hc]

theorem contentById_same (h : Unmarked t X) (hx : hexDecode x = some X) (contentId : Text) :
    SameFor x fun key => getContentById t contentId key := by
  refine same_of_bind fun id => same_of_decoded hx ?_
  rw [h.blocked two_mem, h.blocked three_mem]
  cases hfound : t.contents.find? (·.row.transactionId = id) with
  | none => rfl
  | some c =>
    have hc := List.mem_of_find?_eq_some hfound
    have hid : c.row.transactionId = id := by
      have hdecided := List.find?_some hfound
      exact of_decide_eq_true hdecided
    have hpost (hpost : isPost c.row = true) (type : ContentType) (nickname author : Option Text) :
        withPoll t (2 :: X) id (withEdit t id
          { KaReads.postRecord t (2 :: X) (mentionTypesOf type) [.quote] c with
            userNickname := nickname, referencedNickname := author }) =
        withPoll t (3 :: X) id (withEdit t id
          { KaReads.postRecord t (3 :: X) (mentionTypesOf type) [.quote] c with
            userNickname := nickname, referencedNickname := author }) := by
      rw [h.postRecord hc (Or.inl hpost), withPoll, withPoll, ← hid, h.poll (content_row hc) hpost]
    cases htype : c.row.contentType with
    | post => simp only [htype, hpost (by rw [isPost, htype]; rfl)]
    | quote => simp only [htype, hpost (by rw [isPost, htype]; rfl)]
    | poll => simp only [htype, hpost (by rw [isPost, htype]; rfl)]
    | repost => simp only [htype]
    | reply =>
      cases hparent : c.row.referencedContentId with
      | none => simp only [htype, hparent]
      | some parent =>
        have hshown : Shown t c.row := Or.inr ⟨htype, Or.inl (by rw [hparent]; exact Option.some_ne_none _)⟩
        simp only [htype, hparent, h.reply hc hshown]

theorem repliesByPost_same (h : Unmarked t X) (hx : hexDecode x = some X) (postId : Text)
    (options : QueryOptions) : SameFor x fun key => getRepliesByPostId t postId key options := by
  refine same_of_bind fun post => same_of_decoded hx ?_
  have hselected : ofParent t (2 :: X) post = ofParent t (3 :: X) post := by
    funext c
    rw [ofParent, ofParent, h.blocked two_mem, h.blocked three_mem]
  rw [hselected]
  refine congrArg Except.ok (contentPage_congr (fun c hc hreply => h.reply hc (Or.inr ?_) post) options)
  rw [ofParent, Bool.and_eq_true, Bool.and_eq_true, decide_eq_true_iff, decide_eq_true_iff] at hreply
  exact ⟨hreply.1.1, Or.inl (by rw [hreply.1.2]; exact Option.some_ne_none post)⟩

theorem repliesByUser_same (h : Unmarked t X) (hx : hexDecode x = some X) (user : Text)
    (options : QueryOptions) : SameFor x fun key => getRepliesByUser t user key options := by
  refine same_of_bind fun user => same_of_decoded hx ?_
  rw [h.blocked two_mem, h.blocked three_mem]
  refine contentPageM_congr (fun c hc hreply => ?_) options
  rw [Bool.and_eq_true, Bool.and_eq_true, decide_eq_true_iff] at hreply
  cases hparent : c.row.referencedContentId with
  | none => rfl
  | some parent =>
    have hshown : Shown t c.row := Or.inr ⟨hreply.1.1, Or.inl (by rw [hparent]; exact Option.some_ne_none _)⟩
    exact congrArg Except.ok (h.reply hc hshown parent)

theorem postsByUser_same (h : Unmarked t X) (hx : hexDecode x = some X) (user : Text)
    (options : QueryOptions) : SameFor x fun key => getPostsByUser t user key options := by
  refine same_of_bind fun user => same_of_decoded hx ?_
  rw [h.blocked two_mem, h.blocked three_mem]
  refine congrArg Except.ok (paginate_congr fun c hc => ?_)
  obtain ⟨hmem, hselected⟩ := List.mem_filter.mp (fetch_mem (List.mem_filter.mp hc).1)
  rw [Bool.and_eq_true] at hselected
  exact h.feedPost hmem hselected.1

theorem tagged_shown {requester : Bytes} {hashtag : Text} {c : Numbered Content}
    (h : c ∈ taggedContents t requester hashtag) : Shown t c.row := by
  obtain ⟨hmem, hselected⟩ := List.mem_filter.mp h
  obtain ⟨c', hc', htagged⟩ := List.mem_flatMap.mp hmem
  obtain ⟨row, hrow, rfl⟩ := List.mem_map.mp htagged
  obtain ⟨hrows, htag⟩ := List.mem_filter.mp hrow
  obtain ⟨hid, -⟩ := of_decide_eq_true htag
  rw [Bool.and_eq_true, List.contains_iff_mem] at hselected
  cases htype : c'.row.contentType with
  | post => exact Or.inl (by rw [isPost, htype]; rfl)
  | quote => exact Or.inl (by rw [isPost, htype]; rfl)
  | reply => exact Or.inr ⟨htype, Or.inr ⟨row, hrows, hid⟩⟩
  | repost => exact absurd hselected.1 (by rw [htype]; decide)
  | poll => exact absurd hselected.1 (by rw [htype]; decide)

theorem hashtagContent_same (h : Unmarked t X) (hx : hexDecode x = some X) (hashtag : Text)
    (options : QueryOptions) : SameFor x fun key => getHashtagContent t hashtag key options := by
  have htagged : taggedContents t (2 :: X) hashtag = taggedContents t (3 :: X) hashtag := by
    rw [taggedContents, taggedContents, h.blocked two_mem, h.blocked three_mem]
  refine same_of_decoded hx ?_
  rw [htagged]
  refine congrArg (fun page => Except.ok (endEmpty page)) (paginate_congr fun c hc => ?_)
  have hmem := fetch_mem hc
  exact h.typedPost (tagged_mem hmem).1 (tagged_shown hmem)

theorem Unmarked.status (h : Unmarked t X) : userStatus t (2 :: X) = userStatus t (3 :: X) := by
  funext b
  rw [userStatus, userStatus, h.blocked two_mem, h.blocked three_mem, h.followed two_mem,
    h.followed three_mem]

theorem allUsers_same (h : Unmarked t X) (hx : hexDecode x = some X) (options : QueryOptions) :
    SameFor x fun key => getAllUsers t key options := by
  refine same_of_decoded hx ?_
  rw [userPage, userPage, h.status]

theorem searchUsers_same (h : Unmarked t X) (hx : hexDecode x = some X) (limit : ℕ)
    (before after user nickname : Option Text) : SameFor x fun key =>
      searchUsersPaginated t limit key before after user nickname := by
  have hsearch (options : QueryOptions) (user : Option Text) : SameFor x fun key =>
      KaReads.searchUsers t key options user nickname := by
    refine same_of_decoded hx ?_
    simp only [userPage, h.status]
  have heq := hsearch ⟨some limit, before, after⟩ (user.map (·.drop 2))
  unfold SameFor at heq
  simp only [SameFor, searchUsersPaginated, heq]

theorem mostActive_same (h : Unmarked t X) (hx : hexDecode x = some X) (options : QueryOptions)
    (fromTimeMillis toTimeMillis : ℕ) : SameFor x fun key =>
      getMostActiveUsers t key options fromTimeMillis toTimeMillis := by
  have huser (count : Numbered Broadcast → ℕ) :
      activeUser t (2 :: X) count = activeUser t (3 :: X) count := by
    funext b
    rw [activeUser, activeUser, h.blocked two_mem, h.blocked three_mem, h.followed two_mem,
      h.followed three_mem]
  refine same_of_decoded hx ?_
  simp only [huser]

theorem searchPosted_same (h : Unmarked t X) (hx : hexDecode x = some X) (queryText : Text)
    (options : QueryOptions) : SameFor x fun key => searchUsersPosted t key queryText options := by
  refine same_of_decoded hx ?_
  simp only [h.blocked two_mem, h.blocked three_mem, h.followed two_mem, h.followed three_mem]

theorem userDetails_same (h : Unmarked t X) (hx : hexDecode x = some X) (user : Text) :
    SameFor x fun key => getUserDetails t user key := by
  have hflag {requester : Bytes} (hform : requester ∈ forms X) (kind : RelationKind) (targets : List Bytes) :
      ((t.db.relations kind).any fun r => r.senderPubkey = requester && targets.contains r.targetPubkey) =
        false := by
    refine List.any_eq_false.mpr fun r hr hrelated => ?_
    rw [Bool.and_eq_true, decide_eq_true_iff] at hrelated
    exact h.unrelated kind r hr (hrelated.1 ▸ hform)
  refine same_of_bind fun user => same_of_decoded hx ?_
  simp only [hflag two_mem, hflag three_mem]

theorem related_same (h : Unmarked t X) (hx : hexDecode x = some X) (kind : RelationKind)
    (options : QueryOptions) : SameFor x fun key => getRelatedByRequester t kind key options := by
  have hrows {requester : Bytes} (hform : requester ∈ forms X) :
      ((t.relations kind).filter fun r => decide (r.row.senderPubkey = requester)) = [] := by
    refine List.filter_eq_nil_iff.mpr fun r hr hsender => ?_
    exact h.unrelated kind r.row ((t.relationIds kind).row_mem hr) (of_decide_eq_true hsender ▸ hform)
  refine same_of_decoded hx ?_
  simp only [relationPage, hrows two_mem, hrows three_mem]

theorem usersFollowing_same (h : Unmarked t X) (hx : hexDecode x = some X) (user : Text)
    (options : QueryOptions) : SameFor x fun key => getUsersFollowing t key user options := by
  refine same_of_bind fun user => same_of_decoded hx ?_
  simp only [h.followed two_mem, h.followed three_mem]

theorem usersFollowers_same (h : Unmarked t X) (hx : hexDecode x = some X) (user : Text)
    (options : QueryOptions) : SameFor x fun key => getUsersFollowers t key user options := by
  refine same_of_bind fun user => same_of_decoded hx ?_
  simp only [h.followed two_mem, h.followed three_mem]

theorem Unmarked.notified (h : Unmarked t X) : notified t (2 :: X) = notified t (3 :: X) := by
  funext m
  rw [KaNotifications.notified, KaNotifications.notified, h.blocked two_mem, h.blocked three_mem]
  rfl

theorem notifications_same (h : Unmarked t X) (hx : hexDecode x = some X) (options : QueryOptions) :
    SameFor x fun key => getNotifications t key options := by
  refine same_of_decoded hx ?_
  simp only [h.notified]

theorem notificationCount_same (h : Unmarked t X) (hx : hexDecode x = some X) (after : Option Text) :
    SameFor x fun key => getNotificationCount t key after := by
  refine same_of_decoded hx ?_
  simp only [h.notified]

/-! ## What is stored under one form -/

/-- A page that is long enough shows all rows. -/
theorem whole_page {ρ α : Type} [HasCompoundCursor α] {place : ρ → Position} {item : ρ → α} {rows : List ρ}
    {limit : ℕ} (hlimit : rows.length ≤ limit) :
    (paginate limit item (fetch place (newestFirst place) ⟨some limit, none, none⟩ limit rows)).items =
      (newestFirst place rows).map item := by
  have hadmits : (rows.filter fun r => QueryOptions.admits ⟨some limit, none, none⟩ (place r)) = rows :=
    List.filter_eq_self.mpr fun _ _ => rfl
  have hlength := (newestFirst_ordered place rows).length
  have hall : (newestFirst place rows).take (limit + 1) = newestFirst place rows :=
    List.take_of_length_le (by omega)
  rw [paginate, fetch, hadmits, hall, List.take_of_length_le (by omega)]

theorem leftJoin_left {ρ σ : Type} {on : ρ → σ → Bool} {rows : List ρ} {others : List σ} {r : ρ} :
    (∃ s, (r, s) ∈ leftJoin on rows others) ↔ r ∈ rows := by
  constructor
  · rintro ⟨s, hs⟩
    obtain ⟨r', hr', hmem⟩ := List.mem_flatMap.mp hs
    split at hmem
    · rw [List.mem_singleton] at hmem
      exact (Prod.mk.inj hmem).1 ▸ hr'
    · obtain ⟨_, _, heq⟩ := List.mem_map.mp hmem
      exact (Prod.mk.inj heq).1 ▸ hr'
  · intro hr
    cases hmatching : others.filter (on r) with
    | nil => exact ⟨none, List.mem_flatMap.mpr ⟨r, hr, by rw [hmatching]; exact List.mem_singleton_self _⟩⟩
    | cons s matching =>
      refine ⟨some s, List.mem_flatMap.mpr ⟨r, hr, ?_⟩⟩
      rw [hmatching]
      exact List.mem_cons_self

/-- The rows of a key, joined with their profiles. -/
def ownRelations (t : Tables) (kind : RelationKind) (requester : Bytes) :
    List (Numbered Relation × Option Broadcast) :=
  leftJoin (fun r => ofTarget r.row) ((t.relations kind).filter fun r => r.row.senderPubkey = requester)
    t.db.broadcasts

theorem related_ids {key : Text} {requester : Bytes} (hkey : decodeHexToBytes key = .ok requester)
    (kind : RelationKind) {limit : ℕ} (hlimit : (ownRelations t kind requester).length ≤ limit) :
    ∃ page, getRelatedByRequester t kind key ⟨some limit, none, none⟩ = .ok page ∧
      ∀ id, id ∈ page.items.map (·.id) ↔
        ∃ r ∈ t.relations kind, r.row.senderPubkey = requester ∧ r.id = id := by
  refine ⟨relationPage t kind (·.senderPubkey = requester) ofTarget (relationRecord (·.targetPubkey))
    ⟨some limit, none, none⟩, ?_, fun id => ?_⟩
  · rw [getRelatedByRequester, hkey]
    rfl
  · have hitems : (relationPage t kind (·.senderPubkey = requester) ofTarget
        (relationRecord (·.targetPubkey)) ⟨some limit, none, none⟩).items =
        (newestFirst relationPosition (ownRelations t kind requester)).map
          (relationRecord (·.targetPubkey)) := whole_page hlimit
    have hmem (r : Numbered Relation × Option Broadcast) :
        r ∈ newestFirst relationPosition (ownRelations t kind requester) ↔
          r ∈ ownRelations t kind requester := (newestFirst_ordered _ _).perm.mem_iff
    rw [hitems, List.map_map, List.mem_map]
    constructor
    · rintro ⟨r, hr, rfl⟩
      have hrow := List.mem_filter.mp (leftJoin_left.mp ⟨r.2, (hmem r).mp hr⟩)
      exact ⟨r.1, hrow.1, of_decide_eq_true hrow.2, rfl⟩
    · rintro ⟨r, hr, hsender, rfl⟩
      have hrow : r ∈ (t.relations kind).filter fun r => r.row.senderPubkey = requester :=
        List.mem_filter.mpr ⟨hr, decide_eq_true hsender⟩
      obtain ⟨b, hb⟩ := leftJoin_left.mpr hrow
      exact ⟨(r, b), (hmem _).mpr hb, rfl⟩

/-- The lists of a person's own rows have no row in common. -/
theorem unrelated_of_same (hx : hexDecode x = some X) (kind : RelationKind)
    (h : ∀ options, SameFor x fun key => getRelatedByRequester t kind key options) :
    ∀ r ∈ t.db.relations kind, r.senderPubkey ∉ forms X := by
  let limit := (ownRelations t kind (2 :: X)).length + (ownRelations t kind (3 :: X)).length
  obtain ⟨two, htwo, htwoIds⟩ := related_ids (decode_two hx) kind (Nat.le_add_right _ _ : _ ≤ limit)
  obtain ⟨three, hthree, hthreeIds⟩ := related_ids (decode_three hx) kind (Nat.le_add_left _ _ : _ ≤ limit)
  have hsame : two = three := by
    have heq := h ⟨some limit, none, none⟩
    rw [SameFor, htwo, hthree] at heq
    exact Except.ok.inj heq
  have hboth (id : ℤ) : (∃ r ∈ t.relations kind, r.row.senderPubkey = 2 :: X ∧ r.id = id) ↔
      ∃ r ∈ t.relations kind, r.row.senderPubkey = 3 :: X ∧ r.id = id := by
    rw [← htwoIds, ← hthreeIds, hsame]
  have hapart {r r' : Numbered Relation} (hr : r ∈ t.relations kind) (hr' : r' ∈ t.relations kind)
      (htwo : r.row.senderPubkey = 2 :: X) (hthree : r'.row.senderPubkey = 3 :: X) (hid : r.id = r'.id) :
      False := by
    rw [(t.relationIds kind).eq_of_id hr hr' hid, hthree] at htwo
    exact absurd (List.cons.inj htwo).1 (by decide)
  intro r hr hform
  obtain ⟨id, hid⟩ := (t.relationIds kind).exists_numbered hr
  rcases List.mem_cons.mp hform with htwo | hthree
  · obtain ⟨r', hr', hthree, hsameId⟩ := (hboth id).mp ⟨_, hid, htwo, rfl⟩
    exact hapart hid hr' htwo hthree hsameId.symm
  · obtain ⟨r', hr', htwo, hsameId⟩ := (hboth id).mpr ⟨_, hid, List.mem_singleton.mp hthree, rfl⟩
    exact hapart hr' hid htwo (List.mem_singleton.mp hthree) hsameId

/-- The votes and the poll that a record shows to who asks. -/
def votesIn : ContentRecord → Option Bool × Option Bool
  | .post record => (record.isUpvoted, record.isDownvoted)
  | .reply record => (record.isUpvoted, record.isDownvoted)
  | .vote _ => (none, none)

def pollIn : ContentRecord → Option PollData
  | .post record => record.poll
  | _ => none

theorem withPoll_votes (requester id : Bytes) (record : KPostRecord) :
    votesIn (.post (withPoll t requester id record)) = votesIn (.post record) := by
  unfold withPoll
  cases enrichPolls id requester t.db <;> rfl

theorem withPoll_poll (requester id : Bytes) {record : KPostRecord} (hnone : record.poll = none) :
    pollIn (.post (withPoll t requester id record)) = enrichPolls id requester t.db := by
  unfold withPoll
  cases enrichPolls id requester t.db with
  | none => exact hnone
  | some data => rfl

/-- The content of an id is shown with the votes and the poll of who asks. -/
theorem contentById_shows {key : Text} {requester : Bytes} (hkey : decodeHexToBytes key = .ok requester)
    {c : Content} (hc : c ∈ t.db.contents)
    (hshown : isPost c = true ∨ c.contentType = .reply ∧ c.referencedContentId ≠ none) :
    ∃ record blocked, getContentById t (hexEncode c.transactionId) key = .ok (some (record, blocked)) ∧
      votesIn record = (some (hasVoted t requester "upvote".toList c.transactionId),
        some (hasVoted t requester "downvote".toList c.transactionId)) ∧
      (isPost c = true → pollIn record = enrichPolls c.transactionId requester t.db) := by
  obtain ⟨id, hid⟩ := t.contentIds.exists_numbered hc
  obtain ⟨found, hfound, rfl⟩ : ∃ found, t.contents.find? (·.row.transactionId = c.transactionId) =
      some found ∧ found.row = c := by
    cases hfind : t.contents.find? (·.row.transactionId = c.transactionId) with
    | none => exact absurd (decide_eq_true rfl) (List.find?_eq_none.mp hfind _ hid)
    | some found =>
      have hsame := List.find?_some hfind
      exact ⟨found, rfl, List.inj_on_of_nodup_map t.contentKeys
        (t.contentIds.row_mem (List.mem_of_find?_eq_some hfind)) hc (of_decide_eq_true hsame)⟩
  rw [getContentById, decodeHexToBytes, hexDecode_hexEncode, hkey]
  simp only [bind, Except.bind, hfound]
  cases htype : found.row.contentType with
  | post => exact ⟨_, _, rfl, withPoll_votes requester _ _, fun _ => withPoll_poll requester _ rfl⟩
  | quote => exact ⟨_, _, rfl, withPoll_votes requester _ _, fun _ => withPoll_poll requester _ rfl⟩
  | poll => exact ⟨_, _, rfl, withPoll_votes requester _ _, fun _ => withPoll_poll requester _ rfl⟩
  | repost =>
    rw [isPost, htype] at hshown
    rcases hshown with h | ⟨h, -⟩
    · cases h
    · cases h
  | reply =>
    have hpost : isPost found.row = false := by
      rw [isPost, htype]
      rfl
    cases hparent : found.row.referencedContentId with
    | none =>
      rw [hpost, hparent] at hshown
      simp at hshown
    | some parent => exact ⟨_, _, rfl, rfl, fun hisPost => absurd hisPost (by rw [hpost]; decide)⟩

/-- One person votes once on a content. -/
theorem votes_apart (hlength : X.length = 32) {vote : Text} {post : Bytes}
    (h : hasVoted t (2 :: X) vote post = hasVoted t (3 :: X) vote post) {requester : Bytes}
    (hform : requester ∈ forms X) : hasVoted t requester vote post = false := by
  have hperson {requester : Bytes} (hform : requester ∈ forms X) : last32 requester = X := by
    rcases List.mem_cons.mp hform with rfl | hform
    · rw [last32, List.length_cons, hlength]
      rfl
    · rw [List.mem_singleton.mp hform, last32, List.length_cons, hlength]
      rfl
  have hvote {requester : Bytes} (hvoted : hasVoted t requester vote post = true) :
      ∃ v ∈ t.db.votes, v.postId = post ∧ v.senderPubkey = requester := by
    obtain ⟨v, hv, hfound⟩ := List.any_eq_true.mp hvoted
    obtain ⟨hpost, -, hsender⟩ := of_decide_eq_true hfound
    exact ⟨v, hv, hpost, hsender⟩
  have hboth (htwo : hasVoted t (2 :: X) vote post = true) : False := by
    obtain ⟨v, hv, hpost, hsender⟩ := hvote htwo
    obtain ⟨v', hv', hpost', hsender'⟩ := hvote (h ▸ htwo)
    have hsame := List.inj_on_of_nodup_map t.voters hv hv' (by
      rw [hpost, hpost', hsender, hsender', hperson two_mem, hperson three_mem])
    rw [hsame, hsender'] at hsender
    exact absurd (List.cons.inj hsender).1 (by decide)
  have hnone : hasVoted t (2 :: X) vote post = false := Bool.eq_false_iff.mpr hboth
  rcases List.mem_cons.mp hform with rfl | hform
  · exact hnone
  · rw [List.mem_singleton.mp hform, ← h, hnone]

/-- A reply with a hashtag is shown among the contents of the hashtag. -/
theorem tagged_votes (hx : hexDecode x = some X)
    (hunrelated : ∀ r ∈ t.db.relations .block, r.senderPubkey ∉ forms X) {c : Content}
    (hc : c ∈ t.db.contents) (htype : c.contentType = .reply) {h : Hashtag} (hh : h ∈ t.derived.hashtags)
    (hid : h.contentId = c.transactionId)
    (hsame : ∀ options, SameFor x fun key => getHashtagContent t h.hashtag key options) :
    (some (hasVoted t (2 :: X) "upvote".toList c.transactionId),
      some (hasVoted t (2 :: X) "downvote".toList c.transactionId)) =
      (some (hasVoted t (3 :: X) "upvote".toList c.transactionId),
        some (hasVoted t (3 :: X) "downvote".toList c.transactionId)) := by
  have hblocked {requester : Bytes} (hform : requester ∈ forms X) :
      isBlocked t requester = fun _ => false := related_none hunrelated hform
  have htagged : taggedContents t (3 :: X) h.hashtag = taggedContents t (2 :: X) h.hashtag := by
    rw [taggedContents, taggedContents, hblocked two_mem, hblocked three_mem]
  obtain ⟨id, hnumbered⟩ := t.contentIds.exists_numbered hc
  have hmem : (⟨id, c⟩ : Numbered Content) ∈ taggedContents t (2 :: X) h.hashtag := by
    refine List.mem_filter.mpr ⟨List.mem_flatMap.mpr ⟨⟨id, c⟩, hnumbered, ?_⟩, ?_⟩
    · exact List.mem_map.mpr ⟨h, List.mem_filter.mpr ⟨hh, decide_eq_true ⟨hid, rfl⟩⟩, rfl⟩
    · rw [hblocked two_mem, htype]
      rfl
  have heq := hsame ⟨some (taggedContents t (2 :: X) h.hashtag).length, none, none⟩
  rw [SameFor, getHashtagContent, getHashtagContent, decode_two hx, decode_three hx] at heq
  simp only [bind, Except.bind, Option.getD_some, htagged] at heq
  have hlength := List.length_pos_of_mem hmem
  rw [endEmpty_paginate hlength, endEmpty_paginate hlength] at heq
  have hitems := congrArg PaginatedResult.items (Except.ok.inj heq)
  rw [whole_page le_rfl, whole_page le_rfl, List.map_inj_left] at hitems
  have hrecord := hitems _ ((newestFirst_ordered contentPosition _).perm.mem_iff.mpr hmem)
  exact Prod.ext (congrArg KPostRecord.isUpvoted hrecord) (congrArg KPostRecord.isDownvoted hrecord)

/-- Where the votes under both forms show alike, there are none. -/
theorem unvoted_of_same (hx : hexDecode x = some X) (hlength : X.length = 32)
    (hunrelated : ∀ r ∈ t.db.relations .block, r.senderPubkey ∉ forms X)
    (hbyId : ∀ id, SameFor x fun key => getContentById t id key)
    (hhashtag : ∀ hashtag options, SameFor x fun key => getHashtagContent t hashtag key options)
    {c : Content} (hc : c ∈ t.db.contents) (hshown : Shown t c) {v : Vote} (hv : v ∈ t.db.votes)
    (hpost : v.postId = c.transactionId) (hkind : v.vote = "upvote".toList ∨ v.vote = "downvote".toList) :
    v.senderPubkey ∉ forms X := by
  have hsame : hasVoted t (2 :: X) v.vote c.transactionId = hasVoted t (3 :: X) v.vote c.transactionId := by
    have hvotes : (some (hasVoted t (2 :: X) "upvote".toList c.transactionId),
        some (hasVoted t (2 :: X) "downvote".toList c.transactionId)) =
        (some (hasVoted t (3 :: X) "upvote".toList c.transactionId),
          some (hasVoted t (3 :: X) "downvote".toList c.transactionId)) := by
      by_cases hplain : isPost c = true ∨ c.contentType = .reply ∧ c.referencedContentId ≠ none
      · obtain ⟨two, _, htwo, htwoVotes, -⟩ := contentById_shows (decode_two hx) hc hplain
        obtain ⟨three, _, hthree, hthreeVotes, -⟩ := contentById_shows (decode_three hx) hc hplain
        have heq := hbyId (hexEncode c.transactionId)
        rw [SameFor, htwo, hthree] at heq
        have hrecords := (Prod.mk.inj (Option.some.inj (Except.ok.inj heq))).1
        rw [← htwoVotes, ← hthreeVotes, hrecords]
      · obtain ⟨htype, h, hh, hid⟩ : c.contentType = .reply ∧
            ∃ h ∈ t.derived.hashtags, h.contentId = c.transactionId := by
          rcases hshown with hfirst | ⟨htype, hparent | htag⟩
          · exact absurd (Or.inl hfirst) hplain
          · exact absurd (Or.inr ⟨htype, hparent⟩) hplain
          · exact ⟨htype, htag⟩
        exact tagged_votes hx hunrelated hc htype hh hid (hhashtag h.hashtag)
    rcases hkind with hkind | hkind
    · rw [hkind]
      exact Option.some.inj (Prod.mk.inj hvotes).1
    · rw [hkind]
      exact Option.some.inj (Prod.mk.inj hvotes).2
  intro hform
  have hnone := votes_apart hlength hsame hform
  exact (List.any_eq_false.mp hnone v hv) (decide_eq_true ⟨hpost, rfl, rfl⟩)

theorem picked_of_same (hx : hexDecode x = some X) (hbyId : ∀ id, SameFor x fun key => getContentById t id key)
    {c : Content} (hc : c ∈ t.db.contents) (hpost : isPost c = true) {poll : Poll} (hpoll : poll ∈ t.db.polls)
    (hid : poll.postId = c.transactionId) :
    keyChoice (votesOn c.transactionId t.db) (2 :: X) = keyChoice (votesOn c.transactionId t.db) (3 :: X) := by
  obtain ⟨two, _, htwo, -, htwoPoll⟩ := contentById_shows (decode_two hx) hc (Or.inl hpost)
  obtain ⟨three, _, hthree, -, hthreePoll⟩ := contentById_shows (decode_three hx) hc (Or.inl hpost)
  have heq := hbyId (hexEncode c.transactionId)
  rw [SameFor, htwo, hthree] at heq
  have hrecords := (Prod.mk.inj (Option.some.inj (Except.ok.inj heq))).1
  have hdata := (htwoPoll hpost).symm.trans ((congrArg pollIn hrecords).trans (hthreePoll hpost))
  cases hfind : t.db.polls.find? (·.postId = c.transactionId) with
  | none => exact absurd (decide_eq_true hid) (List.find?_eq_none.mp hfind poll hpoll)
  | some found =>
    unfold enrichPolls at hdata
    rw [hfind, Option.map_some, Option.map_some] at hdata
    have hpick := congrArg PollData.myVote (Option.some.inj hdata)
    simp only [if_neg (List.cons_ne_nil _ _)] at hpick
    exact hpick

theorem profile_of_same (hx : hexDecode x = some X) (hlength : X.length = 32)
    (hdetails : ∀ requester, SameFor x fun key => getUserDetails t key requester) :
    ∃ b ∈ t.db.broadcasts, b.senderPubkey ∈ forms X := by
  by_contra hnobody
  have hempty : t.broadcasts.filter (fun b => (forms X).contains b.row.senderPubkey) = [] := by
    refine List.filter_eq_nil_iff.mpr fun b hb hform => ?_
    exact hnobody ⟨b.row, t.broadcastIds.row_mem hb, List.contains_iff_mem.mp hform⟩
  have heq := hdetails ('0' :: '2' :: x)
  rw [SameFor, getUserDetails, getUserDetails, decode_two hx, decode_three hx] at heq
  simp only [bind, Except.bind, variants_two hlength, variants_three hlength, hempty] at heq
  have hkeys := congrArg (fun details => details.1.senderPubkey) (Except.ok.inj heq)
  exact absurd (List.cons.inj (List.cons.inj hkeys).2).1 (by decide)

/-! ## One content alone -/

/-- Cursors between which there is no other content. -/
theorem alone {c : Numbered Content} (hc : c ∈ t.contents) : ∃ before after, ∀ d ∈ t.contents,
    QueryOptions.admits ⟨some 1, before, after⟩ (contentPosition d) = true ↔ d = c := by
  have hid := t.contentIds.positive c.id (t.contentIds.id_mem hc)
  have htime := t.contentIds.times c.row (t.contentIds.row_mem hc)
  have hsame {d : Numbered Content} (hd : d ∈ t.contents) : d = c ↔
      d.row.blockTime = c.row.blockTime ∧ d.id = c.id :=
    ⟨fun h => by rw [h]; exact ⟨rfl, rfl⟩, fun h => t.contentIds.eq_of_id hd hc h.2⟩
  have hafter := cursorPosition_create htime (show Bigint (c.id - 1) by unfold Bigint; omega)
  -- the place before is the next id, or the next time where no id is left, if there is one
  obtain ⟨before, hbefore⟩ : ∃ before : Option Text, ∀ d ∈ t.contents,
      ((before.bind cursorPosition).all (contentPosition d < ·) = true ↔
        d.row.blockTime < c.row.blockTime ∨ d.row.blockTime = c.row.blockTime ∧ d.id ≤ c.id) := by
    have hbounds {d : Numbered Content} (hd : d ∈ t.contents) : d.row.blockTime < 2 ^ 63 ∧
        0 < d.id ∧ d.id < 2 ^ 63 :=
      ⟨(t.contentIds.times d.row (t.contentIds.row_mem hd)).2,
        t.contentIds.positive d.id (t.contentIds.id_mem hd)⟩
    obtain ⟨hlow, hhigh⟩ := htime
    by_cases hlast : c.id + 1 < 2 ^ 63
    · have hcursor := cursorPosition_create (show Bigint c.row.blockTime from ⟨hlow, hhigh⟩)
        (show Bigint (c.id + 1) by unfold Bigint; omega)
      refine ⟨some (createCompoundCursor (asU64 c.row.blockTime) (c.id + 1)), fun d hd => ?_⟩
      rw [Option.bind_some, hcursor, Option.all_some, decide_eq_true_iff, contentPosition, position,
        Prod.Lex.toLex_lt_toLex]
      simp only
      omega
    · by_cases hend : c.row.blockTime + 1 < 2 ^ 63
      · have hcursor := cursorPosition_create (show Bigint (c.row.blockTime + 1) by unfold Bigint; omega)
          (show Bigint 0 by decide)
        refine ⟨some (createCompoundCursor (asU64 (c.row.blockTime + 1)) 0), fun d hd => ?_⟩
        have := hbounds hd
        rw [Option.bind_some, hcursor, Option.all_some, decide_eq_true_iff, contentPosition, position,
          Prod.Lex.toLex_lt_toLex]
        simp only
        omega
      · refine ⟨none, fun d hd => ?_⟩
        have := hbounds hd
        rw [Option.bind_none, Option.all_none]
        simp only [true_iff]
        omega
  refine ⟨before, some (createCompoundCursor (asU64 c.row.blockTime) (c.id - 1)), fun d hd => ?_⟩
  rw [QueryOptions.admits, Bool.and_eq_true, hbefore d hd, Option.bind_some, hafter, Option.all_some,
    decide_eq_true_iff, contentPosition, position, Prod.Lex.toLex_lt_toLex, hsame hd]
  simp only
  omega

/-- Between them a page has the content, or nothing. -/
theorem alone_fetched {c : Numbered Content} (hc : c ∈ t.contents) {before after : Option Text}
    (halone : ∀ d ∈ t.contents, QueryOptions.admits ⟨some 1, before, after⟩ (contentPosition d) = true ↔
      d = c) (selected : Content → Bool) :
    fetch contentPosition (newestFirst contentPosition) ⟨some 1, before, after⟩ 1
      (t.contents.filter fun d => selected d.row) = if selected c.row then [c] else [] := by
  have hnodup : t.contents.Nodup :=
    List.Nodup.of_map Numbered.id (by rw [Tables.contents, t.contentIds.numbered_ids]; exact t.contentIds.nodup)
  have hmem (d : Numbered Content) : d ∈ (t.contents.filter fun d => selected d.row).filter (fun d =>
      QueryOptions.admits ⟨some 1, before, after⟩ (contentPosition d)) ↔
        d = c ∧ selected c.row = true := by
    rw [List.mem_filter, List.mem_filter]
    constructor
    · rintro ⟨⟨hd, hselected⟩, hadmits⟩
      obtain rfl := (halone d hd).mp hadmits
      exact ⟨rfl, hselected⟩
    · rintro ⟨rfl, hselected⟩
      exact ⟨⟨hc, hselected⟩, (halone d hc).mpr rfl⟩
  rw [fetch]
  by_cases hselected : selected c.row = true
  · have hone : (t.contents.filter fun d => selected d.row).filter (fun d =>
        QueryOptions.admits ⟨some 1, before, after⟩ (contentPosition d)) = [c] := by
      refine List.perm_singleton.mp ((List.perm_ext_iff_of_nodup ((hnodup.filter _).filter _)
        (List.nodup_singleton c)).mpr fun d => ?_)
      rw [hmem, List.mem_singleton]
      exact and_iff_left hselected
    rw [hone, if_pos hselected]
    rfl
  · have hnone : (t.contents.filter fun d => selected d.row).filter (fun d =>
        QueryOptions.admits ⟨some 1, before, after⟩ (contentPosition d)) = [] :=
      List.eq_nil_iff_forall_not_mem.mpr fun d hd => hselected ((hmem d).mp hd).2
    rw [hnone, if_neg hselected]
    rfl

/-- A page of the one content that mentions a key shows it, or fails. -/
theorem mentioned_of_same (hx : hexDecode x = some X)
    (hunrelated : ∀ r ∈ t.db.relations .block, r.senderPubkey ∉ forms X)
    (hmentioning : ∀ requester options, SameFor x fun key => getContentsMentioningUser t key requester options)
    {c : Content} (hc : c ∈ t.db.contents) : mentions t (2 :: X) c = mentions t (3 :: X) c := by
  obtain ⟨id, hid⟩ := t.contentIds.exists_numbered hc
  obtain ⟨before, after, halone⟩ := alone hid
  have hblocked : isBlocked t (2 :: X) = fun _ => false := related_none hunrelated two_mem
  have hread {key : Text} {mentioned : Bytes} (hkey : decodeHexToBytes key = .ok mentioned) :
      ((getContentsMentioningUser t key ('0' :: '2' :: x) ⟨some 1, before, after⟩).map
        fun page => page.items) = if mentions t mentioned c then
          (mentionRecord t (2 :: X) ⟨id, c⟩).map fun record => [shownOriginal t c record] else .ok [] := by
    have hfetched := alone_fetched hid halone fun d => mentions t mentioned d
    rw [getContentsMentioningUser, hkey, decode_two hx]
    simp only [bind, Except.bind, hblocked, contentPageM, Option.getD_some, Bool.not_false,
      Bool.and_true, hfetched]
    cases mentions t mentioned c with
    | false => rfl
    | true =>
      simp only [if_true, List.take_succ_cons, List.take_zero, List.mapM_cons, List.mapM_nil]
      cases mentionRecord t (2 :: X) ⟨id, c⟩ <;> rfl
  have hpages : getContentsMentioningUser t ('0' :: '2' :: x) ('0' :: '2' :: x) ⟨some 1, before, after⟩ =
      getContentsMentioningUser t ('0' :: '3' :: x) ('0' :: '2' :: x) ⟨some 1, before, after⟩ :=
    hmentioning ('0' :: '2' :: x) ⟨some 1, before, after⟩
  have hshows : (mentionRecord t (2 :: X) ⟨id, c⟩).map (fun record => [shownOriginal t c record]) ≠
      .ok [] := by
    intro hnone
    cases hrecord : mentionRecord t (2 :: X) ⟨id, c⟩ with
    | error e =>
      rw [hrecord] at hnone
      cases hnone
    | ok record =>
      rw [hrecord] at hnone
      cases hnone
  have hsame := (hread (decode_two hx)).symm.trans ((congrArg _ hpages).trans (hread (decode_three hx)))
  cases htwo : mentions t (2 :: X) c with
  | false =>
    cases hthree : mentions t (3 :: X) c with
    | false => rfl
    | true =>
      rw [htwo, hthree] at hsame
      exact absurd hsame.symm hshows
  | true =>
    cases hthree : mentions t (3 :: X) c with
    | true => rfl
    | false =>
      rw [htwo, hthree] at hsame
      exact absurd hsame hshows

/-- The forms of a key are one person exactly when nothing is stored under either that the reads would
tell apart. -/
theorem one_person_iff (t : Tables) {x : Text} {X : Bytes} (hx : hexDecode x = some X)
    (hlength : X.length = 32) : OnePerson t x ↔ Unmarked t X := by
  constructor
  · intro h
    have hunrelated (kind : RelationKind) := unrelated_of_same hx kind (h.related kind)
    refine ⟨hunrelated, fun c hc hshown v hv hpost hkind => ?_, fun c hc hpost poll hpoll hid => ?_,
      fun c hc => mentioned_of_same hx (hunrelated .block) h.mentioning hc,
      profile_of_same hx hlength h.details⟩
    · exact unvoted_of_same hx hlength (hunrelated .block) h.contentById h.hashtagContent hc hshown hv
        hpost hkind
    · exact picked_of_same hx h.contentById hc hpost hpoll hid
  · intro h
    exact {
      posts := posts_same t hx hlength
      replies := replies_same t hx hlength
      details := details_same h hx hlength
      following := following_same t hx hlength
      followers := followers_same t hx hlength
      mentioning := mentioning_same h hx
      searched := searched_same t x
      allPosts := feed_same h hx none
      searchPosts := fun queryText => feed_same h hx (some queryText)
      contentFollowing := contentFollowing_same h hx
      contentsMentioning := contentsMentioning_same h hx
      contentById := contentById_same h hx
      repliesByPost := repliesByPost_same h hx
      repliesByUser := repliesByUser_same h hx
      postsByUser := postsByUser_same h hx
      hashtagContent := hashtagContent_same h hx
      allUsers := allUsers_same h hx
      mostActive := mostActive_same h hx
      searchUsers := searchUsers_same h hx
      searchPosted := searchPosted_same h hx
      userDetails := userDetails_same h hx
      related := related_same h hx
      usersFollowing := usersFollowing_same h hx
      usersFollowers := usersFollowers_same h hx
      notifications := notifications_same h hx
      notificationCount := notificationCount_same h hx }

end

/-! ## An author who is blocked under one form -/

def samplePerson : Bytes := List.replicate 32 0x11

def samplePost : Content :=
  ⟨[1], 5, 2 :: List.replicate 32 0x22, List.replicate 64 0xbb, "4oGg".toList, .post, none, none⟩

/-- The author of the post is blocked by the person under `02`. -/
def sampleBlock : Relation :=
  ⟨[2], 6, 2 :: samplePerson, List.replicate 64 0xcc, 2 :: List.replicate 32 0x22⟩

def blockedDb : Db :=
  { Db.empty with
    contents := [samplePost]
    relations := fun kind => if kind = .block then [sampleBlock] else [] }

def profileDb : Db :=
  { Db.empty with
    contents := [samplePost]
    broadcasts := [⟨[3], 4, 3 :: samplePerson, List.replicate 64 0xdd, [], none, []⟩] }

/-- Under the other form of the key the post of the blocked author is shown. -/
theorem blocked_author_shown :
    ¬ OnePerson (Tables.ofDb blockedDb (by decide +kernel)) (List.replicate 64 '1') := by
  intro h
  have hposts := congrArg (fun result => result.toOption.map fun page => page.items.length)
    (h.allPosts ⟨some 20, none, none⟩)
  exact absurd hposts (by decide +kernel)

theorem unmarked_person :
    OnePerson (Tables.ofDb profileDb (by decide +kernel)) (List.replicate 64 '1') := by
  refine (one_person_iff _ (X := samplePerson) (by decide +kernel) (by decide)).mpr ⟨?_, ?_, ?_, ?_, ?_⟩
  · exact fun _ _ hr => absurd hr List.not_mem_nil
  · exact fun _ _ _ _ hv => absurd hv List.not_mem_nil
  · exact fun _ _ _ _ hpoll => absurd hpoll List.not_mem_nil
  · exact fun _ _ => rfl
  · exact ⟨_, List.mem_singleton_self _, three_mem⟩

end KaChatIndexer.KaPersons

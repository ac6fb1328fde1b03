import KaChatIndexer.KaPaging
import KaChatIndexer.SkippedReads

/-!
# Notifications

A mention is stored under the type of its content and shown when the row of that type is found. A page is
cut before the mentions without a row are dropped, and the count does not look for the rows at all; so
every mention reaches the person exactly when none is of a stored content of another type, no page is
full of mentions of deleted contents, and none of these is among the newest.
-/
namespace KaChatIndexer.KaNotifications
open ByteStrings CursorTexts KaText KaStore KaTables KaReads KaPaging PagedReads MarkedReads SkippedReads
open ScheduledPosts (hexEncode)

/-! ## The query -/

structure NotificationContentRecord where
  content : ContentRecord
  mentionId : ℤ
  mentionBlockTime : ℕ
  isReplyMention : Bool
  tipAmountSompi : Option ℕ
  deriving DecidableEq

instance : HasCompoundCursor NotificationContentRecord := ⟨(·.mentionBlockTime), (·.mentionId)⟩

abbrev mentionPosition : Numbered Mention → Position := position Mention.blockTime

section
variable (t : Tables)

/-- A mention of the person by somebody else whom the requester has not blocked. -/
def notified (requester : Bytes) (m : Mention) : Bool :=
  fromSecond m.mentionedPubkey = fromSecond requester && fromSecond m.senderPubkey ≠ fromSecond requester &&
    !isBlocked t requester m.senderPubkey

def notificationPost (m : Numbered Mention) (c : Numbered Content) : KPostRecord :=
  let profile := profileOf t m.row.senderPubkey
  { id := c.id
    transactionId := hexEncode m.row.contentId
    blockTime := asU64 m.row.blockTime
    senderPubkey := hexEncode m.row.senderPubkey
    senderSignature := []
    base64EncodedMessage := c.row.base64EncodedMessage
    mentionedPubkeys := []
    contentType := none
    editedAt := none
    poll := none
    tipsCount := none
    repliesCount := none
    upVotesCount := none
    downVotesCount := none
    quotesCount := none
    isUpvoted := none
    isDownvoted := none
    userNickname := some (nicknameOf profile)
    userProfileImage := imageOf profile
    referencedContentId := none
    referencedMessage := none
    referencedSenderPubkey := none
    referencedNickname := none
    referencedProfileImage := none }

def notificationQuote (m : Numbered Mention) (c : Numbered Content) : KPostRecord :=
  { notificationPost t m c with
    referencedContentId := c.row.referencedContentId.map hexEncode
    referencedMessage := (c.row.referencedContentId.bind t.db.content).map (·.base64EncodedMessage) }

def notificationReply (m : Numbered Mention) (c : Numbered Content) : KReplyRecord :=
  let profile := profileOf t m.row.senderPubkey
  { id := c.id
    transactionId := hexEncode m.row.contentId
    blockTime := asU64 m.row.blockTime
    senderPubkey := hexEncode m.row.senderPubkey
    senderSignature := []
    postId := []
    base64EncodedMessage := c.row.base64EncodedMessage
    mentionedPubkeys := []
    contentType := none
    editedAt := none
    tipsCount := none
    repliesCount := none
    upVotesCount := none
    downVotesCount := none
    quotesCount := none
    isUpvoted := none
    isDownvoted := none
    userNickname := some (nicknameOf profile)
    userProfileImage := imageOf profile }

/-- A tip is shown in the shape of a vote. -/
def notificationVote (m : Numbered Mention) (id : ℤ) (post : Bytes) (vote : Text) : KVoteRecord :=
  let profile := profileOf t m.row.senderPubkey
  { id
    transactionId := hexEncode m.row.contentId
    blockTime := asU64 m.row.blockTime
    senderPubkey := hexEncode m.row.senderPubkey
    senderSignature := []
    postId := hexEncode post
    vote
    mentionBlockTime := some (asU64 m.row.blockTime)
    votedContent := some ((t.db.content post).elim [] (·.base64EncodedMessage))
    userNickname := some (nicknameOf profile)
    userProfileImage := imageOf profile }

/-- Somebody is mentioned in a reply who did not write what it replies to. -/
def isReplyMention (m : Mention) (c : Content) : Bool :=
  (c.referencedContentId.bind t.db.content).any fun parent =>
    fromSecond parent.senderPubkey ≠ fromSecond m.mentionedPubkey

/-- The content under the type that the mention names. -/
def mentionedContent (type : ContentType) (m : Numbered Mention) : Option (Numbered Content) :=
  t.contents.find? fun c => c.row.transactionId = m.row.contentId ∧ c.row.contentType = type

/-- A mention whose row is not found is skipped. -/
def notification (m : Numbered Mention) : Option NotificationContentRecord :=
  let record (content : ContentRecord) (reply : Bool) (tip : Option ℕ) : NotificationContentRecord :=
    ⟨content, m.id, asU64 m.row.blockTime, reply, tip⟩
  match m.row.contentType with
  | .post => (mentionedContent t .post m).map fun c => record (.post (notificationPost t m c)) false none
  | .quote => (mentionedContent t .quote m).map fun c => record (.post (notificationQuote t m c)) false none
  | .reply => (mentionedContent t .reply m).map fun c =>
      record (.reply (notificationReply t m c)) (isReplyMention t m.row c.row) none
  | .vote => (t.votes.find? (·.row.transactionId = m.row.contentId)).map fun v =>
      record (.vote (notificationVote t m v.id v.row.postId v.row.vote)) false none
  | .tip => (t.tips.find? (·.row.transactionId = m.row.contentId)).map fun tip =>
      record (.vote (notificationVote t m tip.id tip.row.postId [])) false (some tip.row.amount)
  | .repost => none

/-- Every row names its sender, so none is passed over for the want of one. -/
def getNotifications (requesterPubkey : Text) (options : QueryOptions) :
    DatabaseResult (PaginatedResult NotificationContentRecord) := do
  let requester ← decodeHexToBytes requesterPubkey
  let limit := options.limit.getD 20
  let fetched := fetch mentionPosition (newestFirst mentionPosition) options limit
    (t.mentions.filter fun m => notified t requester m.row)
  let notifications := (fetched.take limit).filterMap (notification t)
  .ok ⟨notifications, ⟨limit < fetched.length, notifications.getLast?.map cursorOf,
    notifications.head?.map cursorOf⟩⟩

def getNotificationCount (requesterPubkey : Text) (after : Option Text) : DatabaseResult ℕ := do
  let requester ← decodeHexToBytes requesterPubkey
  let since ← match after with
    | none => .ok none
    | some cursor => match cursorPosition cursor with
      | some p => .ok (some p)
      | none => .error (.invalidInput "Invalid cursor format".toList)
  .ok ((newestFirst mentionPosition (t.mentions.filter fun m =>
    notified t requester m.row && since.all (· < mentionPosition m))).take 31).length

/-! ## What is due -/

/-- A post, poll, reply, quote, vote or tip of this id is stored. -/
def stored (id : Bytes) : Bool :=
  t.db.contents.any (fun c => c.transactionId = id ∧ c.contentType ≠ .repost) ||
    t.db.votes.any (·.transactionId = id) || t.db.tips.any (·.transactionId = id)

/-- It is stored under the type that the mention names. -/
def storedAs (type : MentionType) (id : Bytes) : Bool :=
  match type with
  | .post => t.db.contents.any fun c => c.transactionId = id ∧ c.contentType = .post
  | .quote => t.db.contents.any fun c => c.transactionId = id ∧ c.contentType = .quote
  | .reply => t.db.contents.any fun c => c.transactionId = id ∧ c.contentType = .reply
  | .vote => t.db.votes.any (·.transactionId = id)
  | .tip => t.db.tips.any (·.transactionId = id)
  | .repost => false

def notifiedMentions (requester : Bytes) : List (Numbered Mention) :=
  t.mentions.filter fun m => notified t requester m.row

def dueMentions (requester : Bytes) : List (Numbered Mention) :=
  (notifiedMentions t requester).filter fun m => stored t m.row.contentId

/-- Newer than a cursor; without one every mention is. -/
def newerThan (after : Option Text) (m : Numbered Mention) : Bool :=
  (after.bind cursorPosition).all (· < mentionPosition m)

/-- Every mention that is due reaches the person once and no other, every page that is followed by
another says where to go on, and the count is that of what is due. -/
structure Delivered (requesterPubkey : Text) (requester : Bytes) (len : ℕ) : Prop where
  feed : ∃ pages, Reads (follow (fun _ => getNotifications t requesterPubkey) len) none pages none ∧
    pages.flatten.map some =
      (newestFirst mentionPosition (dueMentions t requester)).map (notification t)
  cursors : ∀ before after page, getNotifications t requesterPubkey ⟨some len, before, after⟩ = .ok page →
    page.pagination.hasMore = true → page.pagination.nextCursor ≠ none
  count : ∀ after : Option Text, (after.all fun cursor => (cursorPosition cursor).isSome) = true →
    getNotificationCount t requesterPubkey after =
      .ok (min 31 ((dueMentions t requester).filter (newerThan after)).length)

/-- Stored contents have the type that their mentions name; not as many mentions of deleted contents as
a page has come before another mention; and of the newest 31 mentions every content is stored. -/
structure Tidy (requester : Bytes) (len : ℕ) : Prop where
  typed : ∀ m ∈ notifiedMentions t requester, stored t m.row.contentId = true →
    storedAs t m.row.contentType m.row.contentId = true
  full : ¬ HiddenPage (fun m => stored t m.row.contentId) len
    (newestFirst mentionPosition (notifiedMentions t requester))
  recent : ∀ m ∈ notifiedMentions t requester, ((notifiedMentions t requester).filter fun x =>
    mentionPosition m < mentionPosition x).length < 31 → stored t m.row.contentId = true

end

/-! ## Pages of notifications -/

section
variable {t : Tables} {requester : Bytes} {requesterPubkey : Text} {len : ℕ}

theorem find_isSome {ρ : Type} {time : ρ → ℤ} {rows : List ρ} (s : Serial time rows) (p : ρ → Bool) :
    (s.numbered.find? fun r => p r.row).isSome = rows.any p := by
  have hrows : rows.any p = s.numbered.any fun r => p r.row := by
    conv_lhs => rw [← s.numbered_rows, List.any_map]
    rfl
  rw [hrows, Bool.eq_iff_iff, List.find?_isSome, List.any_eq_true]

/-- A mention is shown when its content is stored under the type that it names. -/
theorem notification_isSome (m : Numbered Mention) :
    (notification t m).isSome = storedAs t m.row.contentType m.row.contentId := by
  have hcontent (type : ContentType) : (mentionedContent t type m).isSome =
      t.db.contents.any fun c => c.transactionId = m.row.contentId ∧ c.contentType = type :=
    find_isSome t.contentIds fun c => c.transactionId = m.row.contentId ∧ c.contentType = type
  unfold notification storedAs
  cases m.row.contentType with
  | post => exact Option.isSome_map.trans (hcontent .post)
  | quote => exact Option.isSome_map.trans (hcontent .quote)
  | reply => exact Option.isSome_map.trans (hcontent .reply)
  | vote => exact Option.isSome_map.trans (find_isSome t.voteIds fun v => v.transactionId = m.row.contentId)
  | tip => exact Option.isSome_map.trans (find_isSome t.tipIds fun v => v.transactionId = m.row.contentId)
  | repost => rfl

theorem stored_of_storedAs {type : MentionType} {id : Bytes} (h : storedAs t type id = true) :
    stored t id = true := by
  have hcontent {kept : ContentType} (hkept : kept ≠ .repost) (h : (t.db.contents.any fun c =>
      c.transactionId = id ∧ c.contentType = kept) = true) : stored t id = true := by
    obtain ⟨c, hc, hfound⟩ := List.any_eq_true.mp h
    obtain ⟨hid, rfl⟩ := of_decide_eq_true hfound
    rw [stored, Bool.or_eq_true, Bool.or_eq_true]
    exact Or.inl (Or.inl (List.any_eq_true.mpr ⟨c, hc, decide_eq_true ⟨hid, hkept⟩⟩))
  cases type with
  | post => exact hcontent (by decide) h
  | quote => exact hcontent (by decide) h
  | reply => exact hcontent (by decide) h
  | vote =>
    rw [stored, Bool.or_eq_true, Bool.or_eq_true]
    exact Or.inl (Or.inr h)
  | tip =>
    rw [stored, Bool.or_eq_true]
    exact Or.inr h
  | repost => cases h

theorem notification_cursor {m : Numbered Mention} {record : NotificationContentRecord}
    (h : notification t m = some record) :
    cursorOf record = createCompoundCursor (asU64 m.row.blockTime) m.id := by
  unfold notification at h
  split at h
  case h_6 => cases h
  all_goals
    obtain ⟨_, _, rfl⟩ := Option.map_eq_some_iff.mp h
    rfl

theorem mention_mem {m : Numbered Mention} (h : m ∈ notifiedMentions t requester) :
    m ∈ t.mentionIds.numbered := (List.mem_filter.mp h).1

theorem mention_places (t : Tables) (requester : Bytes) :
    ((notifiedMentions t requester).map (newest mentionPosition)).Nodup :=
  places_nodup t.mentionIds (fun _ => rfl) _

/-- Picking rows before or after putting them in order is the same. -/
theorem newestFirst_filter (t : Tables) (requester : Bytes) (among : Numbered Mention → Bool) :
    newestFirst mentionPosition ((notifiedMentions t requester).filter among) =
      (newestFirst mentionPosition (notifiedMentions t requester)).filter among := by
  have hall := newestFirst_ordered mentionPosition (notifiedMentions t requester)
  refine Ordered.unique ((mention_places t requester).sublist (List.filter_sublist.map _))
    (newestFirst_ordered mentionPosition _) ⟨hall.perm.filter among, hall.sorted.sublist List.filter_sublist⟩

/-- What a request answers from the rows between its cursors. -/
theorem getNotifications_fetched (hkey : hexDecode requesterPubkey = some requester)
    (before after : Option Text) :
    let answer := newestFirst mentionPosition ((notifiedMentions t requester).filter fun m =>
      QueryOptions.admits ⟨some len, before, after⟩ (mentionPosition m))
    let notifications := (answer.take len).filterMap (notification t)
    getNotifications t requesterPubkey ⟨some len, before, after⟩ = .ok ⟨notifications,
      ⟨len < answer.length, notifications.getLast?.map cursorOf, notifications.head?.map cursorOf⟩⟩ := by
  intro answer notifications
  have htake : (answer.take (len + 1)).take len = answer.take len := by
    rw [List.take_take, Nat.min_eq_left (Nat.le_succ len)]
  have hmore : (len < (answer.take (len + 1)).length) = (len < answer.length) := by
    rw [List.length_take, eq_iff_iff]
    omega
  have hread : getNotifications t requesterPubkey ⟨some len, before, after⟩ =
      .ok ⟨((answer.take (len + 1)).take len).filterMap (notification t),
        ⟨len < (answer.take (len + 1)).length,
          (((answer.take (len + 1)).take len).filterMap (notification t)).getLast?.map cursorOf,
          (((answer.take (len + 1)).take len).filterMap (notification t)).head?.map cursorOf⟩⟩ := by
    rw [getNotifications, decodeHexToBytes, hkey]
    rfl
  rw [hread]
  simp only [htake, hmore]
  rfl

theorem admitted_behind {s : Option Positionᵒᵈ} {cursor : Option Text} (h : Stands s cursor)
    (rows : List (Numbered Mention)) : (rows.filter fun m =>
      QueryOptions.admits ⟨some len, cursor, none⟩ (mentionPosition m)) =
      behind (newest mentionPosition) rows s := by
  refine List.filter_congr fun m _ => ?_
  rw [QueryOptions.admits, h]
  cases s with
  | none => rfl
  | some s => simp [after, newest, OrderDual.lt_toDual]

/-- A client that passes cursors on asks for the rows behind the last that was shown. -/
theorem follow_skips (hkey : hexDecode requesterPubkey = some requester) (n : ℕ)
    (s : Option Positionᵒᵈ) (cursor : Option Text) (h : Stands s cursor) :
    Alike Stands (skipAsk (newest mentionPosition) (notification t) len
        (fun _ => newestFirst mentionPosition) (notifiedMentions t requester) n s)
      (follow (fun _ => getNotifications t requesterPubkey) len n cursor) := by
  rw [follow, getNotifications_fetched hkey, skipAsk, admitted_behind h]
  simp only [Except.map, decide_eq_true_eq]
  by_cases hlong : len < (newestFirst mentionPosition
      (behind (newest mentionPosition) (notifiedMentions t requester) s)).length
  · rw [if_pos hlong, if_pos hlong, last_item]
    refine ⟨rfl, ?_⟩
    cases hlast : (((newestFirst mentionPosition (behind (newest mentionPosition)
        (notifiedMentions t requester) s)).take len).filter fun r =>
          (notification t r).isSome).getLast? with
    | none => rfl
    | some m =>
      obtain ⟨hmem, hshown⟩ := List.mem_filter.mp (List.mem_of_getLast? hlast)
      obtain ⟨record, hrecord⟩ := Option.isSome_iff_exists.mp hshown
      have hrow : m ∈ t.mentionIds.numbered := mention_mem (List.mem_filter.mp
        ((newestFirst_ordered mentionPosition _).perm.mem_iff.mp (List.mem_of_mem_take hmem))).1
      have hcursor := t.mentionIds.cursorPosition hrow
      rw [Option.bind_some, hrecord, Stands, Option.map_some, Option.bind_some,
        notification_cursor hrecord, hcursor]
      rfl
  · rw [if_neg hlong, if_neg hlong]
    exact (rfl : List.filterMap (notification t) _ = _)

theorem count_answer (hkey : hexDecode requesterPubkey = some requester) {after : Option Text}
    (hafter : (after.all fun cursor => (cursorPosition cursor).isSome) = true) :
    getNotificationCount t requesterPubkey after =
      .ok (min 31 ((notifiedMentions t requester).filter (newerThan after)).length) := by
  have hcount (since : Option Position) : ((newestFirst mentionPosition (t.mentions.filter fun m =>
      notified t requester m.row && since.all (· < mentionPosition m))).take 31).length =
      min 31 ((notifiedMentions t requester).filter fun m => since.all (· < mentionPosition m)).length := by
    rw [List.length_take, newestFirst, List.length_insertionSort, notifiedMentions, List.filter_filter]
    simp only [Bool.and_comm]
  rw [getNotificationCount, decodeHexToBytes, hkey]
  cases after with
  | none => exact congrArg Except.ok (hcount none)
  | some cursor =>
    obtain ⟨p, hp⟩ := Option.isSome_iff_exists.mp (hafter : (cursorPosition cursor).isSome = true)
    have hnewer : newerThan (some cursor) = fun m => (some p).all (· < mentionPosition m) := by
      funext m
      rw [newerThan, Option.bind_some, hp]
    rw [hnewer, ← hcount (some p)]
    simp only [hp]
    rfl

/-! ## When every mention reaches the person -/

theorem admits_convex (options : QueryOptions) :
    Convex (newest mentionPosition) fun m => options.admits (mentionPosition m) := by
  intro a b c hab hbc ha hc
  have hab : mentionPosition b ≤ mentionPosition a := hab
  have hbc : mentionPosition c ≤ mentionPosition b := hbc
  obtain ⟨hbefore, -⟩ := Bool.and_eq_true_iff.mp ha
  obtain ⟨-, hafter⟩ := Bool.and_eq_true_iff.mp hc
  refine Bool.and_eq_true_iff.mpr ⟨?_, ?_⟩
  · cases h : options.before.bind cursorPosition with
    | none => rfl
    | some p =>
      rw [h] at hbefore
      exact decide_eq_true (hab.trans_lt (of_decide_eq_true hbefore))
  · cases h : options.after.bind cursorPosition with
    | none => rfl
    | some p =>
      rw [h] at hafter
      exact decide_eq_true ((of_decide_eq_true hafter).trans_le hbc)

theorem shown_eq_stored (htidy : ∀ m ∈ notifiedMentions t requester, stored t m.row.contentId = true →
    storedAs t m.row.contentType m.row.contentId = true) {m : Numbered Mention}
    (hm : m ∈ notifiedMentions t requester) : (notification t m).isSome = stored t m.row.contentId := by
  rw [notification_isSome, Bool.eq_iff_iff]
  exact ⟨stored_of_storedAs, htidy m hm⟩

theorem due_ordered (t : Tables) (requester : Bytes) :
    newestFirst mentionPosition (dueMentions t requester) =
      (newestFirst mentionPosition (notifiedMentions t requester)).filter fun m =>
        stored t m.row.contentId := newestFirst_filter t requester _

/-- A request from behind the row before a run of hidden rows shows nothing and tells no place. -/
theorem full_of_cursors (hlen : 0 < len) (hkey : hexDecode requesterPubkey = some requester)
    (hcursors : ∀ before after page, getNotifications t requesterPubkey ⟨some len, before, after⟩ =
      .ok page → page.pagination.hasMore = true → page.pagination.nextCursor ≠ none) :
    ¬ HiddenPage (fun m => (notification t m).isSome) len
      (newestFirst mentionPosition (notifiedMentions t requester)) := by
  rintro ⟨p, hlong, hhidden⟩
  have hl := newestFirst_ordered mentionPosition (notifiedMentions t requester)
  have hkeys := mention_places t requester
  obtain ⟨s, cursor, hstands, hs⟩ : ∃ s cursor, Stands s cursor ∧
      (behind (newest mentionPosition) (notifiedMentions t requester) s).Perm
        ((newestFirst mentionPosition (notifiedMentions t requester)).drop p) := by
    cases p with
    | zero =>
      have hall : behind (newest mentionPosition) (notifiedMentions t requester) none =
        notifiedMentions t requester := List.filter_eq_self.mpr fun _ _ => rfl
      exact ⟨none, none, rfl, hall.symm ▸ hl.perm.symm⟩
    | succ p =>
      obtain ⟨m, hm⟩ : ∃ m, (newestFirst mentionPosition (notifiedMentions t requester))[p]? = some m :=
        ⟨_, List.getElem?_eq_getElem (by omega)⟩
      obtain ⟨m', hm'⟩ : ∃ m', (newestFirst mentionPosition
          (notifiedMentions t requester))[p + 1]? = some m' := ⟨_, List.getElem?_eq_getElem (by omega)⟩
      have hrow := mention_mem (hl.perm.mem_iff.mp (List.mem_of_getElem? hm))
      have hfinds : Finds (newest mentionPosition) (newest mentionPosition)
        (fun k x => k < newest mentionPosition x) (notifiedMentions t requester) m :=
          fun _ _ => decide_eq_true_iff
      exact ⟨some (newest mentionPosition m), some (createCompoundCursor (asU64 m.row.blockTime) m.id),
        t.mentionIds.cursorPosition hrow, ahead_found hkeys hl hm hm' hfinds⟩
  have hanswer := answer_drop (n := 0) (newestFirst_answers mentionPosition) hkeys hl hs
  have hread : getNotifications t requesterPubkey ⟨some len, cursor, none⟩ = _ :=
    getNotifications_fetched hkey cursor none
  rw [admitted_behind hstands, hanswer] at hread
  refine hcursors _ _ _ hread (decide_eq_true ?_) ?_
  · rw [List.length_drop]
    omega
  · have hnone : (((newestFirst mentionPosition (notifiedMentions t requester)).drop p).take len).filterMap
        (notification t) = [] := by
      refine List.filterMap_eq_nil_iff.mpr fun m hm => Option.isNone_iff_eq_none.mp ?_
      exact Option.isSome_eq_false_iff.mp (hhidden m hm)
    rw [hnone]
    rfl

theorem feed_iff (hkey : hexDecode requesterPubkey = some requester)
    (hfull : ¬ HiddenPage (fun m => (notification t m).isSome) len
      (newestFirst mentionPosition (notifiedMentions t requester))) :
    (∃ pages, Reads (follow (fun _ => getNotifications t requesterPubkey) len) none pages none ∧
      pages.flatten.map some = (newestFirst mentionPosition (dueMentions t requester)).map (notification t)) ↔
    ∀ m ∈ notifiedMentions t requester, stored t m.row.contentId = true →
      storedAs t m.row.contentType m.row.contentId = true := by
  have hl := newestFirst_ordered mentionPosition (notifiedMentions t requester)
  obtain ⟨shownPages, hshown, hflat⟩ := skip_reads (ε := DatabaseError)
    (newestFirst_answers mentionPosition) (mention_places t requester) hl hfull
  have hstart : Stands none none := rfl
  have hreads := (reads_alike (follow_skips hkey) hstart).mpr hshown
  have hitems : shownPages.flatten.map some = ((newestFirst mentionPosition
      (notifiedMentions t requester)).filter fun m => (notification t m).isSome).map (notification t) := by
    rw [hflat, map_shown]
  constructor
  · rintro ⟨pages, hpages, hdue⟩ m hm hstored
    obtain ⟨rfl, -⟩ := hreads.unique hpages
    rw [← notification_isSome]
    have hmem : notification t m ∈ (newestFirst mentionPosition (dueMentions t requester)).map
        (notification t) :=
      List.mem_map_of_mem ((newestFirst_ordered mentionPosition _).perm.mem_iff.mpr (List.mem_filter.mpr ⟨hm, hstored⟩))
    rw [← hdue] at hmem
    obtain ⟨record, -, hrecord⟩ := List.mem_map.mp hmem
    exact Option.isSome_iff_exists.mpr ⟨record, hrecord.symm⟩
  · intro htidy
    refine ⟨shownPages, hreads, ?_⟩
    rw [hitems, due_ordered]
    refine congrArg (List.map (notification t)) (List.filter_congr fun m hm => ?_)
    exact shown_eq_stored htidy (hl.perm.mem_iff.mp hm)

theorem cursors_of_full (hkey : hexDecode requesterPubkey = some requester)
    (hfull : ¬ HiddenPage (fun m => (notification t m).isSome) len
      (newestFirst mentionPosition (notifiedMentions t requester))) (before after : Option Text)
    (page : PaginatedResult NotificationContentRecord)
    (hpage : getNotifications t requesterPubkey ⟨some len, before, after⟩ = .ok page)
    (hmore : page.pagination.hasMore = true) : page.pagination.nextCursor ≠ none := by
  rw [getNotifications_fetched hkey, newestFirst_filter] at hpage
  obtain rfl := Except.ok.inj hpage
  intro hnone
  refine hfull (hidden_among (admits_convex ⟨some len, before, after⟩)
    (newestFirst_ordered mentionPosition (notifiedMentions t requester)).sorted ⟨0, ?_, ?_⟩)
  · rw [Nat.zero_add]
    exact of_decide_eq_true hmore
  · intro m hm
    have hempty := List.getLast?_eq_none_iff.mp (Option.map_eq_none_iff.mp hnone)
    rw [Option.isSome_eq_false_iff, Option.isNone_iff_eq_none]
    exact List.filterMap_eq_nil_iff.mp hempty m hm

/-- The newest mentions count one by one. -/
theorem count_iff (hkey : hexDecode requesterPubkey = some requester) :
    (∀ after : Option Text, (after.all fun cursor => (cursorPosition cursor).isSome) = true →
      getNotificationCount t requesterPubkey after =
        .ok (min 31 ((dueMentions t requester).filter (newerThan after)).length)) ↔
    ∀ m ∈ notifiedMentions t requester, ((notifiedMentions t requester).filter fun x =>
      mentionPosition m < mentionPosition x).length < 31 → stored t m.row.contentId = true := by
  have hdue (after : Option Text) : (dueMentions t requester).filter (newerThan after) =
      ((notifiedMentions t requester).filter (newerThan after)).filter fun m =>
        stored t m.row.contentId := by
    rw [dueMentions, List.filter_comm]
  constructor
  · intro hcount m hm hfew
    have hrow := mention_mem hm
    have hid := t.mentionIds.positive m.id (t.mentionIds.id_mem hrow)
    have htime := t.mentionIds.times m.row (t.mentionIds.row_mem hrow)
    have hcursor := cursorPosition_create htime (show Bigint (m.id - 1) by unfold Bigint; omega)
    -- every mention from this one on
    have hnewer : newerThan (some (createCompoundCursor (asU64 m.row.blockTime) (m.id - 1))) =
        fun x => decide (mentionPosition m ≤ mentionPosition x) := by
      funext x
      rw [newerThan, Option.bind_some, hcursor, Option.all_some, decide_eq_decide, mentionPosition,
        position, position, Prod.Lex.toLex_lt_toLex, Prod.Lex.toLex_le_toLex]
      simp only
      omega
    have hnodup : ((notifiedMentions t requester).map mentionPosition).Nodup :=
      List.Nodup.of_map OrderDual.toDual (by rw [List.map_map]; exact mention_places t requester)
    have hfrom := from_le (mentionPosition m) hnodup
    have hanswer := hcount (some (createCompoundCursor (asU64 m.row.blockTime) (m.id - 1)))
      (by rw [Option.all_some, hcursor]; rfl)
    rw [count_answer hkey (by rw [Option.all_some, hcursor]; rfl), hdue, hnewer] at hanswer
    have hmin := Except.ok.inj hanswer
    have hle := List.length_filter_le (fun m => stored t m.row.contentId)
      ((notifiedMentions t requester).filter fun x => mentionPosition m ≤ mentionPosition x)
    have hall := List.length_filter_eq_length_iff.mp (show (((notifiedMentions t requester).filter
      fun x => mentionPosition m ≤ mentionPosition x).filter fun m => stored t m.row.contentId).length =
        ((notifiedMentions t requester).filter fun x => mentionPosition m ≤ mentionPosition x).length by
      omega)
    exact hall m (List.mem_filter.mpr ⟨hm, decide_eq_true le_rfl⟩)
  · intro hrecent after hafter
    rw [count_answer hkey hafter, hdue]
    refine congrArg Except.ok (bounded_count (newestFirst_ordered mentionPosition _) fun m hm => ?_).symm
    have hbefore := take_before (newestFirst_ordered mentionPosition _) hm
    obtain ⟨hmem, hnewer⟩ := List.mem_filter.mp ((newestFirst_ordered mentionPosition _).perm.mem_iff.mp (List.mem_of_mem_take hm))
    refine hrecent m hmem ?_
    have hsame : ((notifiedMentions t requester).filter (newerThan after)).filter (fun x =>
        decide (newest mentionPosition x < newest mentionPosition m)) =
        (notifiedMentions t requester).filter fun x => mentionPosition m < mentionPosition x := by
      rw [List.filter_filter]
      refine List.filter_congr fun x _ => ?_
      have hbetween : mentionPosition m < mentionPosition x → newerThan after x = true := by
        intro hlt
        rw [newerThan] at hnewer ⊢
        cases h : after.bind cursorPosition with
        | none => rfl
        | some p =>
          rw [h] at hnewer
          exact decide_eq_true ((of_decide_eq_true hnewer).trans hlt)
      by_cases hlt : mentionPosition m < mentionPosition x
      · rw [hbetween hlt]
        exact Bool.and_true _
      · have hnot : ¬ newest mentionPosition x < newest mentionPosition m := hlt
        rw [decide_eq_false hnot, decide_eq_false hlt, Bool.false_and]
    rwa [hsame] at hbefore

end

/-! ## A mention in a poll -/

open KaActions KaHandlers KaSample

def sampleMentions : Text := "[\"".toList ++ sampleKey '3' '3' ++ "\"]".toList

def readMentions (json : Text) : Option (List Text) :=
  if json = sampleMentions then some [sampleKey '3' '3'] else none

def mentionEnv : Env := { sampleEnv with fromJson := readMentions }

def mentioned : Bytes := 3 :: List.replicate 32 0x33

def samplePoll : Transaction :=
  sample 1 5 ["poll".toList, sampleKey '2' '2', sampleSignature 'b', "4oGg".toList,
    "QQ==,Qg==".toList, "100".toList, sampleMentions]

def samplePost : Transaction :=
  sample 1 5 ["post".toList, sampleKey '2' '2', sampleSignature 'b', "4oGg".toList, sampleMentions]

/-- The tables after one transaction. -/
def tablesAfter (transaction : Transaction)
    (h : Fits (processAll mentionEnv noOutputs [transaction] Db.empty)) : Tables := .ofDb _ h

end KaChatIndexer.KaNotifications

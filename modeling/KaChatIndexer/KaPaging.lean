import KaChatIndexer.KaReads
import KaChatIndexer.MarkedReads

/-!
# Paging through the KaPosts queries

A time and an id are a place of their own within one table, so the lists of contents, profiles and tips
are read in full. Two tables have ids of their own, a channel is read by times alone, and a tip before
1970 is given the time zero: there a page must not end between two rows of one place.
-/
namespace KaChatIndexer.KaPaging
open ByteStrings CursorTexts KaText KaStore KaHashtags KaTables KaReads PagedReads MarkedReads
open ScheduledPosts (hexEncode)

/-! ## Clients -/

section
variable {ρ α σ κ : Type} [LinearOrder κ]

/-- A client that gives the cursor of a page back as `before` until there is no more. -/
def follow (read : ℕ → QueryOptions → DatabaseResult (PaginatedResult α)) (len n : ℕ)
    (before : Option Text) : DatabaseResult (Page (Option Text) α) :=
  (read n ⟨some len, before, none⟩).map fun result =>
    ⟨result.items, if result.pagination.hasMore then some result.pagination.nextCursor else none⟩

/-- A client of a channel gives back the time of the last message. -/
def followChannel (t : Tables) (channel : Text) (len _n : ℕ) (before : Option ℤ) :
    DatabaseResult (Page (Option ℤ) BroadcastMessage) :=
  let (messages, hasMore) := getBroadcasts t channel len before
  .ok ⟨messages, if hasMore then some (messages.getLast?.map (·.blockTime)) else none⟩

/-- The client reads every row once, in order, on pages that are not too long and say whether more rows
remain (no rows are one page), and nothing that is not allowed. -/
def Exact (ask : ℕ → Option σ → DatabaseResult (Page (Option σ) α)) (item : ρ → α) (key : ρ → κ)
    (len : ℕ) (rows : List ρ) (allowed : ρ → Prop) : Prop :=
  ∃ pages : List (List ρ), Reads ask none (pages.map (List.map item)) none ∧
    Complete key len rows pages ∧ (rows = [] → pages = [[]]) ∧ ∀ r ∈ pages.flatten, allowed r

/-- The newest rows come first. -/
def newest (position : ρ → Position) (r : ρ) : Positionᵒᵈ := OrderDual.toDual (position r)

theorem newestFirst_ordered (position : ρ → Position) (rows : List ρ) :
    Ordered (newest position) rows (newestFirst position rows) := ordered_sort rows

theorem newestFirst_answers (position : ρ → Position) :
    Answers (newest position) fun _ => newestFirst position := fun _ => newestFirst_ordered position

/-- The rows older than a place. -/
def older (position : ρ → Position) (s : Positionᵒᵈ) (r : ρ) : Bool := s < newest position r

/-- The text stands for the place, and no text for the start. -/
def Stands (s : Option Positionᵒᵈ) (cursor : Option Text) : Prop :=
  cursor.bind cursorPosition = s.map OrderDual.ofDual

variable {position : ρ → Position} {mark : ρ → Positionᵒᵈ} {order : ℕ → List ρ → List ρ}
  {rows : List ρ} {len : ℕ} {allowed : ρ → Prop}

theorem fetch_stands {s : Option Positionᵒᵈ} {cursor : Option Text} (h : Stands s cursor) (n : ℕ) :
    fetch position (order n) ⟨some len, cursor, none⟩ len rows =
      (order n (ahead (older position) rows s)).take (len + 1) := by
  have hadmits (r : ρ) : QueryOptions.admits ⟨some len, cursor, none⟩ (position r) =
      s.all (older position · r) := by
    rw [QueryOptions.admits, h]
    cases s with
    | none => rfl
    | some s => simp [older, newest, OrderDual.lt_toDual]
  simp only [fetch, hadmits]
  rfl

section
variable [HasCompoundCursor α] {item : ρ → α}

theorem follow_paginate {read : ℕ → QueryOptions → DatabaseResult (PaginatedResult α)} {n : ℕ}
    {cursor : Option Text} {answer : List ρ} (hlen : 0 < len)
    (h : read n ⟨some len, cursor, none⟩ = .ok (paginate len item (answer.take (len + 1)))) :
    follow read len n cursor = .ok ⟨(answer.take len).map item,
      if len < answer.length then some (answer[len - 1]?.map fun r => cursorOf (item r)) else none⟩ := by
  have htake : (answer.take (len + 1)).take len = answer.take len := by
    rw [List.take_take, Nat.min_eq_left (Nat.le_succ len)]
  have hmore : (len < (answer.take (len + 1)).length) = (len < answer.length) := by
    rw [List.length_take, eq_iff_iff]
    omega
  rw [follow, h]
  simp only [Except.map, paginate, createCompoundPaginationMetadata, htake, hmore, decide_eq_true_eq]
  by_cases hlong : len < answer.length
  · rw [if_pos hlong, if_pos hlong, if_pos hlong, List.getLast?_map, List.getLast?_take, if_neg hlen.ne',
      List.getElem?_eq_getElem (by omega)]
    rfl
  · rw [if_neg hlong, if_neg hlong]

/-- A client that passes cursors on asks for the rows past the mark of the last row. -/
theorem follow_alike {read : ℕ → QueryOptions → DatabaseResult (PaginatedResult α)} (hlen : 0 < len)
    (horder : ∀ n found, (order n found).Perm found)
    (hread : ∀ n cursor, read n ⟨some len, cursor, none⟩ =
      .ok (paginate len item (fetch position (order n) ⟨some len, cursor, none⟩ len rows)))
    (hcursor : ∀ r ∈ rows, cursorPosition (cursorOf (item r)) = some (OrderDual.ofDual (mark r)))
    (n : ℕ) (s : Option Positionᵒᵈ) (cursor : Option Text) (h : Stands s cursor) :
    Alike Stands (shown item (markAsk mark (older position) len order rows) n s)
      (follow read len n cursor) := by
  have hfollow := follow_paginate hlen ((hread n cursor).trans (by rw [fetch_stands h]))
  rw [hfollow, shown]
  by_cases hlong : len < (order n (ahead (older position) rows s)).length
  · obtain ⟨r, hr⟩ : ∃ r, (order n (ahead (older position) rows s))[len - 1]? = some r :=
      ⟨_, List.getElem?_eq_getElem (by omega)⟩
    have hmem : r ∈ rows :=
      (List.mem_filter.mp ((horder n _).mem_iff.mp (List.mem_of_getElem? hr))).1
    rw [markAsk_long hlen hlong hr, if_pos hlong, hr]
    refine ⟨rfl, ?_⟩
    rw [Stands, Option.map_some, Option.bind_some, hcursor r hmem]
    rfl
  · rw [markAsk_short (by omega), if_neg hlong, List.take_of_length_le (by omega)]
    exact (rfl : List.map item _ = _)

end

/-- What a client reads is exact when the pages of the marks are, and hold only what is allowed. -/
theorem exact_iff {τ : Type} {ask : ℕ → Option τ → DatabaseResult (Page (Option τ) α)} {item : ρ → α}
    {key : ρ → κ} {mark : ρ → σ} {past : σ → ρ → Bool} {stands : Option σ → Option τ → Prop}
    (hlen : 0 < len) (horder : Answers key order)
    (halike : ∀ n s cursor, stands s cursor →
      Alike stands (shown item (markAsk mark past len order rows) n s) (ask n cursor))
    (hstart : stands none none) (hinj : ∀ r ∈ rows, ∀ r' ∈ rows, item r = item r' → r = r') :
    Exact ask item key len rows allowed ↔
      (∃ pages, Reads (markAsk (ε := DatabaseError) mark past len order rows) none pages none ∧
        Complete key len rows pages) ∧ ∀ r ∈ rows, allowed r := by
  constructor
  · rintro ⟨pages, hreads, hcomplete, -, hallowed⟩
    have hmem (r : ρ) : r ∈ pages.flatten ↔ r ∈ rows := hcomplete.ordered.perm.mem_iff
    refine ⟨⟨pages, ?_, hcomplete⟩, fun r hr => hallowed r ((hmem r).mpr hr)⟩
    exact shown_reads hinj (fun fuel result => mark_mem hlen horder) (fun r hr => (hmem r).mp hr)
      ((reads_alike halike hstart).mp hreads)
  · rintro ⟨⟨pages, hreads, hcomplete⟩, hallowed⟩
    refine ⟨pages, (reads_alike halike hstart).mpr (reads_shown hreads), hcomplete, fun hnil => ?_,
      fun r hr => hallowed r (hcomplete.ordered.perm.mem_iff.mp hr)⟩
    subst hnil
    exact (hreads.unique (mark_nil horder)).1

/-- A list whose cursors are the places of its rows. -/
theorem compound_exact_iff [HasCompoundCursor α] {item : ρ → α}
    {read : ℕ → QueryOptions → DatabaseResult (PaginatedResult α)} (hlen : 0 < len)
    (horder : Answers (newest position) order)
    (hread : ∀ n cursor, read n ⟨some len, cursor, none⟩ =
      .ok (paginate len item (fetch position (order n) ⟨some len, cursor, none⟩ len rows)))
    (hcursor : ∀ r ∈ rows, cursorPosition (cursorOf (item r)) = some (position r))
    (hinj : ∀ r ∈ rows, ∀ r' ∈ rows, item r = item r' → r = r') :
    Exact (follow read len) item (newest position) len rows allowed ↔
      Uncut len (sortedKeys (newest position) rows) ∧ ∀ r ∈ rows, allowed r := by
  have hmark : ∀ r ∈ rows, cursorPosition (cursorOf (item r)) =
      some (OrderDual.ofDual (newest position r)) := hcursor
  rw [exact_iff hlen horder (follow_alike hlen (fun n found => (horder n found).perm) hread hmark) rfl hinj]
  exact and_congr_left fun _ => keyset_iff hlen horder

end

/-! ## Tables with ids -/

section
variable {ρ α : Type} {time : ρ → ℤ} {rows : List ρ} {len : ℕ} {allowed : Numbered ρ → Prop}

/-- The ids alone keep the places of a table's rows apart. -/
theorem places_nodup (s : Serial time rows) {place : Numbered ρ → Position}
    (hid : ∀ r, (ofLex (place r)).2 = r.id) (selected : Numbered ρ → Bool) :
    ((s.numbered.filter selected).map (newest place)).Nodup := by
  have hids : (s.numbered.map (·.id)).Nodup := s.numbered_ids ▸ s.nodup
  refine List.Nodup.of_map (fun p => (ofLex (OrderDual.ofDual p)).2) ?_
  rw [List.map_map]
  have hplace : (fun p => (ofLex (OrderDual.ofDual p)).2) ∘ newest place = fun r => r.id :=
    funext fun r => hid r
  rw [hplace]
  exact hids.sublist (List.filter_sublist.map _)

variable [HasCompoundCursor α] {item : Numbered ρ → α}

theorem serial_exact (s : Serial time rows) (selected : Numbered ρ → Bool)
    {read : ℕ → QueryOptions → DatabaseResult (PaginatedResult α)} (hlen : 0 < len)
    (hread : ∀ n cursor, read n ⟨some len, cursor, none⟩ = .ok (paginate len item
      (fetch (position time) (newestFirst (position time)) ⟨some len, cursor, none⟩ len
        (s.numbered.filter selected))))
    (htime : ∀ r, getTimestamp (item r) = asU64 (time r.row)) (hid : ∀ r, getId (item r) = r.id)
    (hallowed : ∀ r ∈ s.numbered, selected r = true → allowed r) :
    Exact (follow read len) item (newest (position time)) len (s.numbered.filter selected) allowed := by
  have hmem {r : Numbered ρ} (hr : r ∈ s.numbered.filter selected) : r ∈ s.numbered :=
    (List.mem_filter.mp hr).1
  refine (compound_exact_iff hlen (newestFirst_answers (position time)) hread ?_ ?_).mpr ⟨?_, ?_⟩
  · intro r hr
    rw [cursorOf, htime, hid]
    exact s.cursorPosition (hmem hr)
  · intro r hr r' hr' heq
    exact s.eq_of_id (hmem hr) (hmem hr') (by rw [← hid, ← hid, heq])
  · exact uncut_nodup (places_nodup s (fun _ => rfl) selected)
  · intro r hr
    exact hallowed r (hmem hr) (List.mem_filter.mp hr).2

/-- A page that shows nothing was cut from nothing. -/
theorem endEmpty_paginate (hlen : 0 < len) (fetched : List (Numbered ρ)) :
    endEmpty (paginate len item fetched) = paginate len item fetched := by
  cases fetched with
  | nil => simp [endEmpty, paginate, createCompoundPaginationMetadata]
  | cons r fetched =>
    obtain ⟨k, rfl⟩ := Nat.exists_eq_succ_of_ne_zero hlen.ne'
    rfl

end

/-! ## The lists of contents and profiles -/

/-- The requester has a row against the author, whichever form of the author's key it is of. -/
def Blocked (t : Tables) (requester author : Bytes) : Prop :=
  ∃ r ∈ t.db.relations .block, r.senderPubkey = requester ∧ fromSecond r.targetPubkey = fromSecond author

section
variable {t : Tables} {requester : Bytes} {requesterPubkey : Text} {len : ℕ}

theorem isBlocked_iff {author : Bytes} : isBlocked t requester author = true ↔ Blocked t requester author := by
  simp [isBlocked, isRelated, Blocked, Db.relates]

theorem unblocked {author : Bytes} (h : (!isBlocked t requester author) = true) :
    ¬ Blocked t requester author := by
  rw [← isBlocked_iff]
  simpa using h

theorem feed_exact (hlen : 0 < len) (hkey : hexDecode requesterPubkey = some requester)
    (contentSearch : Option Text) :
    Exact (follow (fun _ => queryAllPosts t requesterPubkey contentSearch) len) (feedPost t requester)
      (newest contentPosition) len (t.contents.filter fun c => ofFeed t requester contentSearch c.row)
      fun c => ¬ Blocked t requester c.row.senderPubkey := by
  have hfields (c : Numbered Content) : (feedPost t requester c).blockTime = asU64 c.row.blockTime ∧
      (feedPost t requester c).id = c.id := by
    unfold feedPost withPoll
    split <;> exact ⟨rfl, rfl⟩
  refine serial_exact t.contentIds (fun c => ofFeed t requester contentSearch c.row) hlen ?_
    (fun c => (hfields c).1) (fun c => (hfields c).2) ?_
  · intro n cursor
    rw [queryAllPosts, decodeHexToBytes, hkey]
    rfl
  · intro c _ hc
    rw [ofFeed, Bool.and_eq_true, Bool.and_eq_true] at hc
    exact unblocked hc.1.2

theorem following_exact (hlen : 0 < len) (hkey : hexDecode requesterPubkey = some requester) :
    Exact (follow (fun _ => getContentFollowing t requesterPubkey) len) (followedPost t requester)
      (newest contentPosition) len (t.contents.filter fun c => ofFollowed t requester c.row)
      fun c => ¬ Blocked t requester c.row.senderPubkey := by
  have hfields (c : Numbered Content) : (followedPost t requester c).blockTime = asU64 c.row.blockTime ∧
      (followedPost t requester c).id = c.id := by
    unfold followedPost withPoll
    split <;> exact ⟨rfl, rfl⟩
  refine serial_exact t.contentIds (fun c => ofFollowed t requester c.row) hlen ?_
    (fun c => (hfields c).1) (fun c => (hfields c).2) ?_
  · intro n cursor
    rw [getContentFollowing, decodeHexToBytes, hkey]
    exact congrArg Except.ok (endEmpty_paginate hlen _)
  · intro c _ hc
    rw [ofFollowed, Bool.and_eq_true] at hc
    exact unblocked hc.2

theorem replies_exact (hlen : 0 < len) (hkey : hexDecode requesterPubkey = some requester)
    {postId : Text} {post : Bytes} (hpost : hexDecode postId = some post) :
    Exact (follow (fun _ => getRepliesByPostId t postId requesterPubkey) len)
      (fun c => reply t requester c post) (newest contentPosition) len
      (t.contents.filter fun c => ofParent t requester post c.row)
      fun c => ¬ Blocked t requester c.row.senderPubkey := by
  refine serial_exact t.contentIds (fun c => ofParent t requester post c.row) hlen ?_
    (fun _ => rfl) (fun _ => rfl) ?_
  · intro n cursor
    rw [getRepliesByPostId, decodeHexToBytes, hpost, decodeHexToBytes, hkey]
    rfl
  · intro c _ hc
    rw [ofParent, Bool.and_eq_true] at hc
    exact unblocked hc.2

theorem cursorPosition_natural {n : ℕ} {id : ℤ} (hn : n < 2 ^ 63) (hid : Bigint id) :
    cursorPosition (createCompoundCursor n id) = some (toLex ((n : ℤ), id)) := by
  rw [cursorPosition, parse_createCompoundCursor (by omega) hid, Option.map_some, asI64, if_pos hn]

theorem active_exact (hlen : 0 < len) (hkey : hexDecode requesterPubkey = some requester)
    (fromTimeMillis toTimeMillis : ℕ) :
    let count (b : Numbered Broadcast) := contentCount t fromTimeMillis toTimeMillis b.row.senderPubkey
    Exact (follow (fun _ options => getMostActiveUsers t requesterPubkey options fromTimeMillis toTimeMillis)
      len) (activeUser t requester count) (newest (activity count)) len
      (t.broadcasts.filter fun b => count b ≠ 0) fun _ => True := by
  intro count
  have hmem {b : Numbered Broadcast} (hb : b ∈ t.broadcasts.filter fun b => count b ≠ 0) :
      b ∈ t.broadcastIds.numbered := (List.mem_filter.mp hb).1
  have hcount (b : Numbered Broadcast) : count b < 2 ^ 63 :=
    List.countP_le_length.trans_lt t.contentIds.length_lt
  refine (compound_exact_iff hlen (newestFirst_answers (activity count)) ?_ ?_ ?_).mpr
    ⟨uncut_nodup (places_nodup t.broadcastIds (fun _ => rfl) _), fun _ _ => trivial⟩
  · intro n cursor
    rw [getMostActiveUsers, decodeHexToBytes, hkey]
    rfl
  · intro b hb
    exact cursorPosition_natural (hcount b) (t.broadcastIds.bigint (hmem hb))
  · intro b hb b' hb' heq
    have hrecord : (broadcastRecord b).id = (broadcastRecord b').id :=
      congrArg (fun user => user.record.id) heq
    exact t.broadcastIds.eq_of_id (hmem hb) (hmem hb') hrecord

/-! ## The lists whose places repeat -/

theorem engagement_cursor {post : Bytes} {e : EngagementActor} (h : e ∈ engagementRows t post) :
    cursorPosition (cursorOf e) = some (engagementPosition e) := by
  have hfields : e.timestamp < 2 ^ 64 ∧ Bigint e.id := by
    rcases List.mem_append.mp h with h | h
    · obtain ⟨v, hv, rfl⟩ := List.mem_map.mp h
      exact ⟨asU64_lt _, t.voteIds.bigint (List.mem_filter.mp hv).1⟩
    · obtain ⟨c, hc, rfl⟩ := List.mem_map.mp h
      exact ⟨asU64_lt _, t.contentIds.bigint (List.mem_filter.mp hc).1⟩
  rw [cursorPosition, cursorOf]
  exact congrArg (Option.map _) (parse_createCompoundCursor hfields.1 hfields.2)

theorem engagement_exact (hlen : 0 < len) {postId : Text} {post : Bytes}
    (hpost : hexDecode postId = some post) (engagementType : Text)
    {order : ℕ → List EngagementActor → List EngagementActor}
    (horder : Answers (newest engagementPosition) order) :
    Exact (follow (fun n => getPostEngagement t (order n) postId engagementType) len) id
      (newest engagementPosition) len (engagementOf t post engagementType) (fun _ => True) ↔
      Uncut len (sortedKeys (newest engagementPosition) (engagementOf t post engagementType)) := by
  have hinj : ∀ e ∈ engagementOf t post engagementType, ∀ e' ∈ engagementOf t post engagementType,
      id e = id e' → e = e' := fun _ _ _ _ heq => heq
  rw [compound_exact_iff hlen horder ?_ ?_ hinj]
  · exact and_iff_left fun _ _ => trivial
  · intro n cursor
    rw [getPostEngagement, decodeHexToBytes, hpost]
    rfl
  · intro e he
    exact engagement_cursor (List.mem_filter.mp he).1

theorem tagged_mem {hashtag : Text} {c : Numbered Content} (h : c ∈ taggedContents t requester hashtag) :
    c ∈ t.contentIds.numbered ∧ ¬ Blocked t requester c.row.senderPubkey := by
  obtain ⟨hmem, hselected⟩ := List.mem_filter.mp h
  obtain ⟨c', hc', htagged⟩ := List.mem_flatMap.mp hmem
  obtain ⟨_, _, rfl⟩ := List.mem_map.mp htagged
  rw [Bool.and_eq_true] at hselected
  exact ⟨hc', unblocked hselected.2⟩

theorem hashtag_exact (hlen : 0 < len) (hkey : hexDecode requesterPubkey = some requester)
    (hashtag : Text) :
    Exact (follow (fun _ => getHashtagContent t hashtag requesterPubkey) len) (typedPost t requester)
      (newest contentPosition) len (taggedContents t requester hashtag)
      (fun c => ¬ Blocked t requester c.row.senderPubkey) ↔
      Uncut len (sortedKeys (newest contentPosition) (taggedContents t requester hashtag)) := by
  rw [compound_exact_iff hlen (newestFirst_answers contentPosition) ?_ ?_ ?_]
  · exact and_iff_left fun c hc => (tagged_mem hc).2
  · intro n cursor
    rw [getHashtagContent, decodeHexToBytes, hkey]
    exact congrArg Except.ok (endEmpty_paginate hlen _)
  · intro c hc
    exact t.contentIds.cursorPosition (tagged_mem hc).1
  · intro c hc c' hc' heq
    exact t.contentIds.eq_of_id (tagged_mem hc).1 (tagged_mem hc').1 (congrArg KPostRecord.id heq)

/-! ## Tips -/

abbrev tipPosition : Numbered Tip → Position := position Tip.blockTime

def tipsOf (t : Tables) (post : Bytes) : List (Numbered Tip) := t.tips.filter (·.row.postId = post)

/-- The place that the cursor of a tip names: no time is before 1970. -/
def tipMark (tip : Numbered Tip) : Positionᵒᵈ := OrderDual.toDual (toLex (max 0 tip.row.blockTime, tip.id))

/-- No page but the last ends with a tip before 1970. -/
def TipsDated (len : ℕ) (tips : List (Numbered Tip)) : Prop :=
  ∀ p tip, 0 < p → len ∣ p → p < tips.length → (newestFirst tipPosition tips)[p - 1]? = some tip →
    0 ≤ tip.row.blockTime

theorem tip_cursor {tip : Numbered Tip} (h : tip ∈ t.tipIds.numbered) :
    cursorPosition (cursorOf (tipper tip)) = some (OrderDual.ofDual (tipMark tip)) := by
  have htime := (t.tipIds.times tip.row (t.tipIds.row_mem h)).2
  have hcursor := cursorPosition_natural (n := (max 0 tip.row.blockTime).toNat) (by omega)
    (t.tipIds.bigint h)
  rwa [Int.toNat_of_nonneg (le_max_left ..)] at hcursor

theorem tip_le_mark (tip : Numbered Tip) : tipMark tip ≤ newest tipPosition tip := by
  refine OrderDual.toDual_le_toDual.mpr (Prod.Lex.toLex_le_toLex.mpr ?_)
  rcases (le_max_right 0 tip.row.blockTime).lt_or_eq with h | h
  · exact Or.inl h
  · exact Or.inr ⟨h, le_rfl⟩

theorem tip_finds {tips : List (Numbered Tip)} {tip : Numbered Tip} (h : tip ∈ tips) :
    Finds (newest tipPosition) tipMark (older tipPosition) tips tip ↔ 0 ≤ tip.row.blockTime := by
  constructor
  · intro hfinds
    by_contra hneg
    have hself : older tipPosition (tipMark tip) tip = true := decide_eq_true
      (OrderDual.toDual_lt_toDual.mpr (Prod.Lex.toLex_lt_toLex.mpr (Or.inl (by omega))))
    exact lt_irrefl _ ((hfinds tip h).mp hself)
  · intro hdated x _
    have hmark : tipMark tip = newest tipPosition tip := by
      rw [tipMark, max_eq_right hdated]
      rfl
    rw [older, hmark, decide_eq_true_iff]

theorem tips_dated {tips : List (Numbered Tip)} :
    EndsMarked (newest tipPosition) tipMark (older tipPosition) len tips (newestFirst tipPosition tips) ↔
      TipsDated len tips := by
  have hordered := newestFirst_ordered tipPosition tips
  have hmem {p : ℕ} {tip : Numbered Tip} (h : (newestFirst tipPosition tips)[p]? = some tip) :
      tip ∈ tips := hordered.perm.mem_iff.mp (List.mem_of_getElem? h)
  constructor
  · intro h p tip hp hdvd hlt htip
    have hnext := List.getElem?_eq_getElem (hordered.length ▸ hlt)
    exact (tip_finds (hmem htip)).mp (h p tip _ hp hdvd htip hnext)
  · intro h p tip tip' hp hdvd htip htip'
    have hlt := (List.getElem?_eq_some_iff.mp htip').1
    exact (tip_finds (hmem htip)).mpr (h p tip hp hdvd (hordered.length ▸ hlt) htip)

theorem tip_inj {post : Bytes} : ∀ tip ∈ tipsOf t post, ∀ tip' ∈ tipsOf t post,
    tipper tip = tipper tip' → tip = tip' := fun _ htip _ htip' heq =>
  t.tipIds.eq_of_id (List.mem_filter.mp htip).1 (List.mem_filter.mp htip').1 (congrArg Tipper.rowId heq)

theorem tippers_exact (hlen : 0 < len) {postId : Text} {post : Bytes}
    (hpost : hexDecode postId = some post) :
    Exact (follow (fun _ => getPostTippers t postId) len) tipper (newest tipPosition) len (tipsOf t post)
      (fun _ => True) ↔ TipsDated len (tipsOf t post) := by
  have horder := newestFirst_answers tipPosition
  have hread (n : ℕ) (cursor : Option Text) : getPostTippers t postId ⟨some len, cursor, none⟩ =
      .ok (paginate len tipper (fetch tipPosition (newestFirst tipPosition) ⟨some len, cursor, none⟩ len
        (tipsOf t post))) := by
    rw [getPostTippers, decodeHexToBytes, hpost]
    rfl
  have hlost : Losing (newest tipPosition) tipMark (older tipPosition) (tipsOf t post) fun _ _ => False :=
    { starts := fun tip _ x _ hlt hpast => by
        have hfound : older tipPosition (tipMark tip) x = true :=
          decide_eq_true ((tip_le_mark tip).trans_lt hlt)
        rw [hfound] at hpast
        cases hpast
      hides := fun _ _ h => h.elim
      stays := fun _ _ _ h _ => h }
  rw [exact_iff hlen horder (follow_alike hlen (fun n found => (horder n found).perm) hread
      fun tip htip => tip_cursor (List.mem_filter.mp htip).1) rfl tip_inj, ← tips_dated]
  refine (and_iff_left fun _ _ => trivial).trans ?_
  exact mark_iff hlen horder (places_nodup t.tipIds (fun _ => rfl) _)
    (newestFirst_ordered tipPosition _) hlost

/-! ## Channels -/

abbrev messagePosition : Numbered ChannelMessage → Position := position ChannelMessage.blockTime

def messagesOf (t : Tables) (channel : Text) : List (Numbered ChannelMessage) :=
  t.messages.filter (·.row.channel = channel)

/-- The times of a list of messages, the newest first. -/
def messageTimes (messages : List (Numbered ChannelMessage)) : List ℤ :=
  (newestFirst messagePosition messages).map (·.row.blockTime)

def earlier (time : ℤ) (m : Numbered ChannelMessage) : Bool := m.row.blockTime < time

theorem time_le {m m' : Numbered ChannelMessage} (h : newest messagePosition m ≤ newest messagePosition m') :
    m'.row.blockTime ≤ m.row.blockTime := by
  rcases Prod.Lex.toLex_le_toLex.mp (OrderDual.toDual_le_toDual.mp h) with hlt | ⟨heq, -⟩
  · exact hlt.le
  · exact heq.le

theorem message_inj {channel : Text} : ∀ m ∈ messagesOf t channel, ∀ m' ∈ messagesOf t channel,
    broadcastMessage m = broadcastMessage m' → m = m' := by
  intro m hm m' hm' heq
  have hid := hexEncode_inj.mp (congrArg BroadcastMessage.txId heq)
  have hkeys : (t.channelIds.numbered.map (·.row.transactionId)).Nodup := by
    have hrows := t.channelKeys
    rw [← t.channelIds.numbered_rows, List.map_map] at hrows
    exact hrows
  exact List.inj_on_of_nodup_map hkeys (List.mem_filter.mp hm).1 (List.mem_filter.mp hm').1 hid

theorem messages_nodup (channel : Text) :
    ((messagesOf t channel).map (newest messagePosition)).Nodup :=
  places_nodup t.channelIds (fun _ => rfl) _

theorem times_apart {channel : Text} :
    EndsMarked (newest messagePosition) (·.row.blockTime) earlier len (messagesOf t channel)
      (newestFirst messagePosition (messagesOf t channel)) ↔
      Uncut len (messageTimes (messagesOf t channel)) := by
  have hl := newestFirst_ordered messagePosition (messagesOf t channel)
  have hkeys := messages_nodup (t := t) channel
  constructor
  · intro h p hp hdvd hlt
    rw [messageTimes, List.length_map] at hlt
    obtain ⟨m, hm⟩ : ∃ m, (newestFirst messagePosition (messagesOf t channel))[p - 1]? = some m :=
      ⟨_, List.getElem?_eq_getElem (by omega)⟩
    obtain ⟨m', hm'⟩ : ∃ m', (newestFirst messagePosition (messagesOf t channel))[p]? = some m' :=
      ⟨_, List.getElem?_eq_getElem hlt⟩
    have hafter := key_lt hkeys hl hm (by rwa [Nat.sub_add_cancel hp])
    have hfound := (h p m m' hp hdvd hm hm' m' (hl.perm.mem_iff.mp (List.mem_of_getElem? hm'))).mpr hafter
    rw [messageTimes, List.getElem?_map, List.getElem?_map, hm, hm']
    exact fun heq => (of_decide_eq_true hfound).ne (Option.some.inj heq).symm
  · intro h p m m' hp hdvd hm hm' x hx
    have hlt := (List.getElem?_eq_some_iff.mp hm').1
    have hne := h p hp hdvd (by rwa [messageTimes, List.length_map])
    rw [messageTimes, List.getElem?_map, List.getElem?_map, hm, hm'] at hne
    have hm'' : (newestFirst messagePosition (messagesOf t channel))[p - 1 + 1]? = some m' := by
      rwa [Nat.sub_add_cancel hp]
    rw [earlier, decide_eq_true_iff]
    constructor
    · intro hearlier
      exact OrderDual.toDual_lt_toDual.mpr (Prod.Lex.toLex_lt_toLex.mpr (Or.inl hearlier))
    · intro hafter
      have hle := time_le (next_least hkeys hl hm hm'' hx hafter)
      have hnext := time_le (key_lt hkeys hl hm hm'').le
      have hdiffer : m.row.blockTime ≠ m'.row.blockTime := fun heq => hne (congrArg some heq)
      exact hle.trans_lt (lt_of_le_of_ne hnext hdiffer.symm)

theorem followChannel_answer (hlen : 0 < len) (channel : Text) (n : ℕ) (before : Option ℤ) :
    let answer := newestFirst messagePosition (ahead earlier (messagesOf t channel) before)
    followChannel t channel len n before = .ok ⟨(answer.take len).map broadcastMessage,
      if len < answer.length then some (answer[len - 1]?.map (·.row.blockTime)) else none⟩ := by
  intro answer
  have hrows : (t.messages.filter fun m => decide (m.row.channel = channel) &&
      before.all (m.row.blockTime < ·)) = ahead earlier (messagesOf t channel) before := by
    rw [ahead, messagesOf, List.filter_filter]
    exact List.filter_congr fun m _ => Bool.and_comm ..
  have htake : (answer.take (len + 1)).take len = answer.take len := by
    rw [List.take_take, Nat.min_eq_left (Nat.le_succ len)]
  have hmore : (len < (answer.take (len + 1)).length) = (len < answer.length) := by
    rw [List.length_take, eq_iff_iff]
    omega
  rw [followChannel, getBroadcasts, hrows]
  simp only [answer] at htake hmore
  simp only [htake, hmore, decide_eq_true_eq, answer]
  by_cases hlong : len < answer.length
  · rw [if_pos hlong, if_pos hlong, List.getLast?_map, List.getLast?_take, if_neg hlen.ne',
      List.getElem?_eq_getElem (Nat.lt_of_le_of_lt (Nat.sub_le len 1) hlong)]
    rfl
  · rw [if_neg hlong, if_neg hlong]

theorem channel_exact (hlen : 0 < len) (channel : Text) :
    Exact (followChannel t channel len) broadcastMessage (newest messagePosition) len
      (messagesOf t channel) (fun _ => True) ↔ Uncut len (messageTimes (messagesOf t channel)) := by
  have horder := newestFirst_answers messagePosition
  have halike (n : ℕ) (s before : Option ℤ) (h : s = before) :
      Alike Eq (shown broadcastMessage (markAsk (·.row.blockTime) earlier len
        (fun _ => newestFirst messagePosition) (messagesOf t channel)) n s)
        (followChannel t channel len n before) := by
    rw [← h, followChannel_answer hlen, shown]
    by_cases hlong : len < (newestFirst messagePosition (ahead earlier (messagesOf t channel) s)).length
    · have hm := List.getElem?_eq_getElem (Nat.lt_of_le_of_lt (Nat.sub_le len 1) hlong)
      rw [markAsk_long hlen hlong hm, if_pos hlong, hm]
      exact ⟨rfl, rfl⟩
    · have hshort := not_lt.mp hlong
      rw [markAsk_short hshort, if_neg hlong,
        List.take_of_length_le hshort]
      exact (rfl : List.map broadcastMessage _ = _)
  have hlost : Losing (newest messagePosition) (·.row.blockTime) earlier (messagesOf t channel)
      fun time m => time ≤ m.row.blockTime :=
    { starts := fun m _ x _ _ hpast => not_lt.mp (of_decide_eq_false hpast)
      hides := fun _ _ h => decide_eq_false (not_lt.mpr h)
      stays := fun _ _ m h hpast => (of_decide_eq_true hpast).le.trans h }
  rw [exact_iff hlen horder halike rfl message_inj, ← times_apart]
  refine (and_iff_left fun _ _ => trivial).trans ?_
  exact mark_iff hlen horder (messages_nodup channel) (newestFirst_ordered messagePosition _) hlost

end

/-! ## All lists -/

/-- The nine lists, each read from its newest row to its oldest. -/
structure PagingExact (t : Tables) (requesterPubkey : Text) (requester : Bytes) (len : ℕ) : Prop where
  allPosts : Exact (follow (fun _ => getAllPosts t requesterPubkey) len) (feedPost t requester)
    (newest contentPosition) len (t.contents.filter fun c => ofFeed t requester none c.row)
    fun c => ¬ Blocked t requester c.row.senderPubkey
  searchPosts : ∀ queryText, Exact
    (follow (fun _ => KaReads.searchPosts t requesterPubkey queryText) len) (feedPost t requester)
    (newest contentPosition) len (t.contents.filter fun c => ofFeed t requester (some queryText) c.row)
    fun c => ¬ Blocked t requester c.row.senderPubkey
  following : Exact (follow (fun _ => getContentFollowing t requesterPubkey) len)
    (followedPost t requester) (newest contentPosition) len
    (t.contents.filter fun c => ofFollowed t requester c.row)
    fun c => ¬ Blocked t requester c.row.senderPubkey
  hashtag : ∀ hashtag, Exact (follow (fun _ => getHashtagContent t hashtag requesterPubkey) len)
    (typedPost t requester) (newest contentPosition) len (taggedContents t requester hashtag)
    fun c => ¬ Blocked t requester c.row.senderPubkey
  replies : ∀ postId post, hexDecode postId = some post → Exact
    (follow (fun _ => getRepliesByPostId t postId requesterPubkey) len)
    (fun c => reply t requester c post) (newest contentPosition) len
    (t.contents.filter fun c => ofParent t requester post c.row)
    fun c => ¬ Blocked t requester c.row.senderPubkey
  mostActive : ∀ fromTimeMillis toTimeMillis,
    let count (b : Numbered Broadcast) := contentCount t fromTimeMillis toTimeMillis b.row.senderPubkey
    Exact (follow (fun _ options => getMostActiveUsers t requesterPubkey options fromTimeMillis toTimeMillis)
      len) (activeUser t requester count) (newest (activity count)) len
      (t.broadcasts.filter fun b => count b ≠ 0) fun _ => True
  engagement : ∀ postId post, hexDecode postId = some post → ∀ engagementType order,
    Answers (newest engagementPosition) order → Exact
      (follow (fun n => getPostEngagement t (order n) postId engagementType) len) id
      (newest engagementPosition) len (engagementOf t post engagementType) fun _ => True
  tippers : ∀ postId post, hexDecode postId = some post → Exact
    (follow (fun _ => getPostTippers t postId) len) tipper (newest tipPosition) len (tipsOf t post)
    fun _ => True
  channels : ∀ channel, Exact (followChannel t channel len) broadcastMessage (newest messagePosition) len
    (messagesOf t channel) fun _ => True

/-- No page of a post's engagement or of a hashtag ends between two rows of one time and id, none of a
channel between two messages of one time, and none of tips before its last ends before 1970. -/
structure EndsApart (t : Tables) (requester : Bytes) (len : ℕ) : Prop where
  engagement : ∀ post engagementType,
    Uncut len (sortedKeys (newest engagementPosition) (engagementOf t post engagementType))
  hashtag : ∀ hashtag, Uncut len (sortedKeys (newest contentPosition) (taggedContents t requester hashtag))
  tips : ∀ post, TipsDated len (tipsOf t post)
  channels : ∀ channel, Uncut len (messageTimes (messagesOf t channel))

theorem cursor_paging_exact_iff (t : Tables) {requesterPubkey : Text} {requester : Bytes}
    (hkey : hexDecode requesterPubkey = some requester) {len : ℕ} (hlen : 0 < len) :
    PagingExact t requesterPubkey requester len ↔ EndsApart t requester len := by
  constructor
  · intro h
    constructor
    · intro post engagementType
      have hpost := hexDecode_hexEncode post
      have horder := newestFirst_answers engagementPosition
      exact (engagement_exact hlen hpost engagementType horder).mp
        (h.engagement _ post hpost engagementType _ horder)
    · exact fun hashtag => (hashtag_exact hlen hkey hashtag).mp (h.hashtag hashtag)
    · intro post
      have hpost := hexDecode_hexEncode post
      exact (tippers_exact hlen hpost).mp (h.tippers _ post hpost)
    · exact fun channel => (channel_exact hlen channel).mp (h.channels channel)
  · intro h
    constructor
    · exact feed_exact hlen hkey none
    · exact fun queryText => feed_exact hlen hkey (some queryText)
    · exact following_exact hlen hkey
    · exact fun hashtag => (hashtag_exact hlen hkey hashtag).mpr (h.hashtag hashtag)
    · exact fun postId post hpost => replies_exact hlen hkey hpost
    · exact active_exact hlen hkey
    · intro postId post hpost engagementType order horder
      exact (engagement_exact hlen hpost engagementType horder).mpr (h.engagement post engagementType)
    · exact fun postId post hpost => (tippers_exact hlen hpost).mpr (h.tips post)
    · exact fun channel => (channel_exact hlen channel).mpr (h.channels channel)

/-! ## A block with two messages -/

def sampleMessage (id : UInt8) : ChannelMessage := ⟨[id], 7, "general".toList, [], []⟩

/-- A channel with two messages of one block. -/
def sampleTables : Tables :=
  { Tables.ofDb Db.empty (by decide) with
    channels := [sampleMessage 1, sampleMessage 2]
    channelIds := .counted (by decide)
    channelKeys := by decide }

/-- On pages of one message the older of the two is never shown. -/
theorem message_skipped : ¬ PagingExact sampleTables (hexEncode [2]) [2] 1 := by
  intro h
  have huncut := (channel_exact Nat.one_pos "general".toList).mp (h.channels "general".toList)
  exact huncut 1 Nat.one_pos (Nat.dvd_refl 1) (by decide) (by decide)

theorem messages_together : PagingExact sampleTables (hexEncode [2]) [2] 2 := by
  refine (cursor_paging_exact_iff sampleTables (hexDecode_hexEncode [2]) Nat.two_pos).mpr ⟨?_, ?_, ?_, ?_⟩
  · exact fun post engagementType => uncut_short (Nat.zero_le 2)
  · exact fun hashtag => uncut_short (Nat.zero_le 2)
  · exact fun post p tip hp hdvd hlt => absurd hlt (Nat.not_lt_zero p)
  · intro channel
    refine uncut_short ?_
    rw [messageTimes, List.length_map, newestFirst, List.length_insertionSort]
    exact List.length_filter_le _ _

end KaChatIndexer.KaPaging

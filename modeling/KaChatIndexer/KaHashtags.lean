import KaChatIndexer.KaSample
import KaChatIndexer.KaStatements
import Mathlib.Data.List.Dedup

/-!
# Hashtags and message texts

What is stored beside a content for the hashtag page and the search: its tags and its text. An insert
writes both and a delete takes both; an edit rewrites the text and leaves the tags of the old one.
-/
namespace KaChatIndexer.KaHashtags
open ByteStrings KaText KaActions KaStore KaHandlers KaSample KaStatements Interleaving
open Interleaving.Prog

/-! ## Extraction -/

/-- The Unicode tables: which characters are letters, numbers or `_`, and `str::to_lowercase`. -/
structure Unicode where
  isTagChar : Char → Bool
  toLowercase : Text → Text

def maxTagChars : ℕ := 30

/-- What may stand right after a tag. -/
def isTagEnd (c : Char) : Bool := isWhitespace c || ".,;!?".toList.contains c

/-- The matches of the pattern with a valid character on both sides. A `#` is no tag character, so
nothing is missed by going on right behind it. -/
def findTags (u : Unicode) : Option Char → Text → List Text
  | _, [] => []
  | before, c :: rest =>
    let found := findTags u (some c) rest
    let tag := (rest.take maxTagChars).takeWhile u.isTagChar
    if c = '#' ∧ tag ≠ [] ∧ before.all isWhitespace ∧ (rest.drop tag.length).head?.all isTagEnd
    then tag :: found
    else found

/-- `convert_from(decode(message, 'base64'), 'UTF8')`. -/
def textOf (message : Text) : Option Text := (base64Decode message).bind utf8Decode

/-- The tags of a message, each once. -/
def extractHashtagsFromBase64 (u : Unicode) (message : Text) : List Text :=
  match textOf message with
  | none => []
  | some text => ((findTags u none text).map u.toLowercase).dedup

theorem textOf_valid {message : Text} (h : (validateKachatMessage message).isOk = true) :
    ∃ text, textOf message = some text := by
  unfold validateKachatMessage at h
  split at h
  · cases h
  · next bytes hbytes =>
    split at h
    · cases h
    · next text htext => exact ⟨text, by simp [textOf, hbytes, htext]⟩

/-! ## The columns -/

/-- A row of `k_hashtags`. -/
structure Hashtag where
  senderPubkey : Bytes
  contentId : Bytes
  blockTime : ℤ
  hashtag : Text
  deriving DecidableEq

/-- The column `message_text` of `k_contents`, by the id of the row, and `k_hashtags`. -/
structure Derived where
  messageText : Bytes → Option Text
  hashtags : List Hashtag

def Derived.empty : Derived := ⟨fun _ => none, []⟩

def Derived.setText (id : Bytes) (text : Option Text) (d : Derived) : Derived :=
  { d with messageText := fun other => if other = id then text else d.messageText other }

def hashtagRows (u : Unicode) (c : Content) : List Hashtag :=
  (extractHashtagsFromBase64 u c.base64EncodedMessage).map fun tag =>
    ⟨c.senderPubkey, c.transactionId, c.blockTime, tag⟩

/-- The insert of a content writes its text, and selects its tags from the row that it returned; a
poll has none. -/
def insertColumns (u : Unicode) (id : Bytes) (before after : Db) (d : Derived) : Derived :=
  match before.content id, after.content id with
  | none, some c =>
    { d.setText id (textOf c.base64EncodedMessage) with
      hashtags := d.hashtags ++ if c.contentType = .poll then [] else hashtagRows u c }
  | _, _ => d

/-- An edit writes the text of the row that it changed. -/
def updateColumns (id : Bytes) (before after : Db) (d : Derived) : Derived :=
  match after.content id with
  | none => d
  | some c => if before.content id = some c then d else d.setText id (textOf c.base64EncodedMessage)

/-- `ON DELETE CASCADE`. -/
def cascade (after : Db) (d : Derived) : Derived :=
  { d with hashtags := d.hashtags.filter fun h => (after.content h.contentId).isSome }

def derive (u : Unicode) : Sql → Db → Db → Derived → Derived
  | .contentInsert id, before, after, d => insertColumns u id before after d
  | .contentUpdate id, before, after, d => updateColumns id before after d
  | _, _, after, d => cascade after d

/-- The workers, as long as each statement runs only where it may. -/
def processor (u : Unicode) (env : Env) (outputs : Bytes → Option (Option (List TxOutput)))
    (may : Transaction → Sql → Db → Prop) : System (Db × Derived) Sql Transaction where
  input _ := True
  prog transaction := (processKTransaction env outputs transaction).beside (derive u)
  may transaction ev s := may transaction ev s.1

/-- The tags that are stored for a content. -/
def tagsOf (d : Derived) (id : Bytes) : List Text :=
  (d.hashtags.filter (·.contentId = id)).map (·.hashtag)

/-- The columns follow the text. -/
structure Consistent (u : Unicode) (s : Db × Derived) : Prop where
  ids : (s.1.contents.map (·.transactionId)).Nodup
  text : ∀ c ∈ s.1.contents, ∃ text, textOf c.base64EncodedMessage = some text ∧
    s.2.messageText c.transactionId = some text
  tags : ∀ c ∈ s.1.contents, c.contentType ≠ .poll →
    (tagsOf s.2 c.transactionId).Perm (extractHashtagsFromBase64 u c.base64EncodedMessage)
  owned : ∀ h ∈ s.2.hashtags, ∃ c ∈ s.1.contents, c.transactionId = h.contentId

/-! ## Statements -/

def writesText : Sql → Bool
  | .contentInsert _ | .contentUpdate _ => true
  | _ => false

/-- What a statement of a transaction may do to the contents. -/
inductive Touches (env : Env) (transaction : Transaction) : Sql → (Db → Db) → Prop
  | read (ev : Sql) : Touches env transaction ev id
  | keeps {ev : Sql} {write : Db → Db} (hev : writesText ev = false)
      (h : ∀ db, (write db).contents = db.contents) : Touches env transaction ev write
  | removes {ev : Sql} {write : Db → Db} (hev : writesText ev = false) (keep : Content → Bool)
      (h : ∀ db, (write db).contents = db.contents.filter keep) : Touches env transaction ev write
  | inserts (row : Content) (mentions : List Mention)
      (hvalid : (validateKachatMessage row.base64EncodedMessage).isOk = true) :
      Touches env transaction (.contentInsert row.transactionId) fun db =>
        (db.insertContent row mentions).2
  | updates {k : KEdit} {post : Bytes} (haction : transaction.action env = some (.edit k))
      (hpost : hexDecode k.postId = some post)
      (hvalid : (validateKachatMessage k.base64EncodedMessage).isOk = true) :
      Touches env transaction (.contentUpdate post) fun db =>
        (db.updateContent post k.base64EncodedMessage transaction.time).2

section
variable {u : Unicode} {env : Env} {transaction : Transaction} {s : Db × Derived}

theorem content_mem {db : Db} {id : Bytes} {c : Content} (h : db.content id = some c) :
    c ∈ db.contents ∧ c.transactionId = id := by
  unfold Db.content at h
  exact ⟨List.mem_of_find?_eq_some h, by simpa using List.find?_some h⟩

theorem content_eq_none {db : Db} {id : Bytes} :
    db.content id = none ↔ ∀ c ∈ db.contents, c.transactionId ≠ id := by
  simp [Db.content, List.find?_eq_none]

theorem content_of_mem {db : Db} (hids : (db.contents.map (·.transactionId)).Nodup) {c : Content}
    (hc : c ∈ db.contents) : db.content c.transactionId = some c := by
  cases h : db.content c.transactionId with
  | none => exact absurd rfl (content_eq_none.mp h c hc)
  | some c' =>
    obtain ⟨hc', hid⟩ := content_mem h
    rw [List.inj_on_of_nodup_map hids hc' hc hid]

theorem derive_other {ev : Sql} (hev : writesText ev = false) (before after : Db) (d : Derived) :
    derive u ev before after d = cascade after d := by
  cases ev <;> first | rfl | cases hev

/-- A conflicting row returns nothing. -/
theorem insertColumns_same (id : Bytes) (db : Db) (d : Derived) :
    insertColumns u id db db d = d := by
  unfold insertColumns
  cases db.content id <;> rfl

theorem insertColumns_new {before after : Db} {c : Content} {id : Bytes} (d : Derived)
    (hbefore : before.content id = none) (hafter : after.content id = some c) :
    insertColumns u id before after d = { d.setText id (textOf c.base64EncodedMessage) with
      hashtags := d.hashtags ++ if c.contentType = .poll then [] else hashtagRows u c } := by
  unfold insertColumns
  rw [hbefore, hafter]

theorem updateColumns_same (id : Bytes) (db : Db) (d : Derived) : updateColumns id db db d = d := by
  unfold updateColumns
  cases h : db.content id <;> simp

/-- Contents that stay keep their tags when those of the others go. -/
theorem tagsOf_filter {db : Db} {d : Derived} {c : Content} (hc : c ∈ db.contents) :
    tagsOf (cascade db d) c.transactionId = tagsOf d c.transactionId := by
  unfold tagsOf cascade
  rw [List.filter_filter]
  congr 1
  refine List.filter_congr fun h _ => ?_
  by_cases hid : h.contentId = c.transactionId
  · have hsome : (db.content h.contentId).isSome = true := by
      rw [Option.isSome_iff_ne_none]
      intro hnone
      exact content_eq_none.mp hnone c hc hid.symm
    simp [hsome]
  · simp [hid]

/-- Some contents go, and nothing else changes of them. -/
theorem consistent_removes {ev : Sql} {db' : Db} (hev : writesText ev = false)
    (keep : Content → Bool) (h : db'.contents = s.1.contents.filter keep) (hs : Consistent u s) :
    Consistent u (db', derive u ev s.1 db' s.2) := by
  have hsub (c : Content) (hc : c ∈ db'.contents) : c ∈ s.1.contents := by
    rw [h] at hc
    exact (List.mem_filter.mp hc).1
  rw [derive_other hev]
  refine ⟨?_, fun c hc => hs.text c (hsub c hc), fun c hc hpoll => ?_, fun row hrow => ?_⟩
  · show (db'.contents.map (·.transactionId)).Nodup
    rw [h]
    exact (List.filter_sublist.map _).nodup hs.ids
  · show (tagsOf (cascade db' s.2) c.transactionId).Perm _
    rw [tagsOf_filter hc]
    exact hs.tags c (hsub c hc) hpoll
  · obtain ⟨-, hsome⟩ := List.mem_filter.mp hrow
    obtain ⟨c, hc⟩ := Option.isSome_iff_exists.mp hsome
    exact ⟨c, content_mem hc⟩

theorem tagsOf_append (d : Derived) (rows : List Hashtag) (id : Bytes) :
    tagsOf { d with hashtags := d.hashtags ++ rows } id =
      tagsOf d id ++ (rows.filter (·.contentId = id)).map (·.hashtag) := by
  simp [tagsOf, List.filter_append]

theorem tagsOf_rows (c : Content) :
    ((hashtagRows u c).filter (·.contentId = c.transactionId)).map (·.hashtag) =
      extractHashtagsFromBase64 u c.base64EncodedMessage := by
  unfold hashtagRows
  rw [List.filter_map, List.map_map]
  simp [Function.comp_def]

/-- A content comes with its columns. -/
theorem consistent_inserts (row : Content) (mentions : List Mention)
    (hvalid : (validateKachatMessage row.base64EncodedMessage).isOk = true) (hs : Consistent u s) :
    Consistent u ((s.1.insertContent row mentions).2,
      derive u (.contentInsert row.transactionId) s.1 (s.1.insertContent row mentions).2 s.2) := by
  unfold Db.insertContent
  split
  · show Consistent u (s.1, insertColumns u row.transactionId s.1 s.1 s.2)
    rw [insertColumns_same]
    exact hs
  · next hfree =>
    have hnew (c : Content) (hc : c ∈ s.1.contents) : c.transactionId ≠ row.transactionId := by
      intro hid
      exact hfree (List.any_eq_true.mpr ⟨c, hc, by simp [hid]⟩)
    have hnone : s.1.content row.transactionId = none := content_eq_none.mpr hnew
    have hrows (h : Hashtag) (hh : h ∈ s.2.hashtags) : h.contentId ≠ row.transactionId := by
      obtain ⟨c, hc, hid⟩ := hs.owned h hh
      exact hid ▸ hnew c hc
    have hafter : Db.content { s.1 with
        contents := s.1.contents ++ [row], mentions := s.1.mentions ++ mentions } row.transactionId =
          some row := by
      unfold Db.content at hnone ⊢
      rw [List.find?_append, hnone]
      simp
    have hderive := insertColumns_new (u := u) s.2 hnone hafter
    show Consistent u (_, insertColumns u row.transactionId s.1 _ s.2)
    rw [hderive]
    have hnoTags : tagsOf s.2 row.transactionId = [] := by
      unfold tagsOf
      rw [List.map_eq_nil_iff, List.filter_eq_nil_iff]
      intro h hh
      simpa using hrows h hh
    refine ⟨?_, fun c hc => ?_, fun c hc hpoll => ?_, fun h hh => ?_⟩
    · rw [List.map_append, List.map_singleton, ← List.concat_eq_append]
      refine hs.ids.concat fun hmem => ?_
      obtain ⟨c, hc, hid⟩ := List.mem_map.mp hmem
      exact hnew c hc hid
    · rcases List.mem_append.mp hc with hc | hc
      · obtain ⟨text, htext, hcolumn⟩ := hs.text c hc
        exact ⟨text, htext, by simp [Derived.setText, hnew c hc, hcolumn]⟩
      · obtain rfl := List.mem_singleton.mp hc
        obtain ⟨text, htext⟩ := textOf_valid hvalid
        exact ⟨text, htext, by simp [Derived.setText, htext]⟩
    · have htags : tagsOf { s.2.setText row.transactionId (textOf row.base64EncodedMessage) with
          hashtags := s.2.hashtags ++ if row.contentType = .poll then [] else hashtagRows u row }
            c.transactionId = tagsOf s.2 c.transactionId ++
              ((if row.contentType = .poll then [] else hashtagRows u row).filter
                (·.contentId = c.transactionId)).map (·.hashtag) :=
        tagsOf_append (s.2.setText row.transactionId (textOf row.base64EncodedMessage)) _ _
      rw [htags]
      rcases List.mem_append.mp hc with hc | hc
      · have hothers : ((if row.contentType = .poll then [] else hashtagRows u row).filter
            (·.contentId = c.transactionId)) = [] := by
          rw [List.filter_eq_nil_iff]
          intro h hh
          split at hh
          · cases hh
          · obtain ⟨tag, -, rfl⟩ := List.mem_map.mp hh
            simpa using Ne.symm (hnew c hc)
        rw [hothers, List.map_nil, List.append_nil]
        exact hs.tags c hc hpoll
      · obtain rfl := List.mem_singleton.mp hc
        rw [hnoTags, if_neg hpoll, tagsOf_rows, List.nil_append]
    · rcases List.mem_append.mp hh with hh | hh
      · obtain ⟨c, hc, hid⟩ := hs.owned h hh
        exact ⟨c, List.mem_append_left _ hc, hid⟩
      · split at hh
        · cases hh
        · obtain ⟨tag, -, rfl⟩ := List.mem_map.mp hh
          exact ⟨row, by simp, rfl⟩

/-- An edit that leaves the tags of what it changes. -/
theorem consistent_updates {post : Bytes} {message : Text} {time : ℤ}
    (hvalid : (validateKachatMessage message).isOk = true)
    (htags : ∀ c ∈ s.1.contents, Db.editApplies post time c = true →
      (extractHashtagsFromBase64 u c.base64EncodedMessage).Perm (extractHashtagsFromBase64 u message))
    (hs : Consistent u s) :
    Consistent u ((s.1.updateContent post message time).2,
      derive u (.contentUpdate post) s.1 (s.1.updateContent post message time).2 s.2) := by
  let edit (c : Content) : Content := if Db.editApplies post time c then
    { c with base64EncodedMessage := message, editedAt := some time } else c
  have hid (c : Content) : (edit c).transactionId = c.transactionId := by
    unfold edit
    split <;> rfl
  have htype (c : Content) : (edit c).contentType = c.contentType := by
    unfold edit
    split <;> rfl
  have hcontents : (s.1.updateContent post message time).2.contents = s.1.contents.map edit := rfl
  have hafter : (s.1.updateContent post message time).2.content post =
      (s.1.content post).map edit := by
    unfold Db.content
    rw [hcontents, List.find?_map]
    congr 2
    funext c
    simp [hid]
  have hderived : ∀ c ∈ s.1.contents, ∃ text, textOf (edit c).base64EncodedMessage = some text ∧
      (derive u (.contentUpdate post) s.1 (s.1.updateContent post message time).2 s.2).messageText
        c.transactionId = some text := by
    intro c hc
    have hcontent := content_of_mem hs.ids hc
    obtain ⟨text, htext, hcolumn⟩ := hs.text c hc
    by_cases hpost : c.transactionId = post
    · subst hpost
      show ∃ text, _ ∧ (updateColumns c.transactionId s.1 _ s.2).messageText c.transactionId = _
      unfold updateColumns
      simp only [hafter, hcontent, Option.map_some]
      by_cases happlies : Db.editApplies c.transactionId time c = true
      · have hedit : edit c = { c with base64EncodedMessage := message, editedAt := some time } :=
          if_pos happlies
        have hne : ¬ some c = some (edit c) := by
          intro heq
          have heq := Option.some.inj heq
          rw [hedit] at heq
          have hlt := (of_decide_eq_true happlies).2
          rw [heq] at hlt
          simp at hlt
        obtain ⟨new, hnew⟩ := textOf_valid hvalid
        rw [if_neg hne]
        exact ⟨new, by rw [hedit]; exact hnew, by simp [Derived.setText, hedit, hnew]⟩
      · have hedit : edit c = c := if_neg happlies
        rw [hedit, if_pos rfl]
        exact ⟨text, htext, hcolumn⟩
    · have happlies : ¬ Db.editApplies post time c = true := by simp [Db.editApplies, hpost]
      have hedit : edit c = c := if_neg happlies
      refine ⟨text, by rw [hedit]; exact htext, ?_⟩
      show (updateColumns post s.1 _ s.2).messageText c.transactionId = some text
      unfold updateColumns
      cases (s.1.updateContent post message time).2.content post with
      | none => exact hcolumn
      | some c' =>
        dsimp only
        split
        · exact hcolumn
        · simpa [Derived.setText, hpost] using hcolumn
  have hhashtags : (derive u (.contentUpdate post) s.1 (s.1.updateContent post message time).2
      s.2).hashtags = s.2.hashtags := by
    show (updateColumns post s.1 _ s.2).hashtags = s.2.hashtags
    unfold updateColumns
    cases (s.1.updateContent post message time).2.content post with
    | none => rfl
    | some c' =>
      dsimp only
      split <;> rfl
  refine ⟨?_, fun c' hc' => ?_, fun c' hc' hpoll => ?_, fun h hh => ?_⟩
  · show ((s.1.contents.map edit).map (·.transactionId)).Nodup
    have hids : (s.1.contents.map edit).map (·.transactionId) =
        s.1.contents.map (·.transactionId) := by
      rw [List.map_map]
      exact List.map_congr_left fun c _ => hid c
    rw [hids]
    exact hs.ids
  · obtain ⟨c, hc, rfl⟩ := List.mem_map.mp hc'
    obtain ⟨text, htext, hcolumn⟩ := hderived c hc
    exact ⟨text, htext, by rw [hid]; exact hcolumn⟩
  · obtain ⟨c, hc, rfl⟩ := List.mem_map.mp hc'
    rw [htype] at hpoll
    have hkept := hs.tags c hc hpoll
    unfold tagsOf at hkept ⊢
    rw [hhashtags, hid]
    by_cases happlies : Db.editApplies post time c = true
    · rw [if_pos happlies]
      exact hkept.trans (htags c hc happlies)
    · rw [if_neg happlies]
      exact hkept
  · obtain ⟨c, hc, hid'⟩ := hs.owned h (hhashtags ▸ hh)
    exact ⟨edit c, List.mem_map_of_mem hc, (hid c).trans hid'⟩

end

/-! ## The handlers -/

section
variable {env : Env} {outputs : Bytes → Option (Option (List TxOutput))} {transaction : Transaction}

abbrev Touching {α : Type} (env : Env) (transaction : Transaction) (p : Worker α) : Prop :=
  p.All (Touches env transaction)

/-- What follows the check of a signature. -/
theorem touching_checked {action : KAction} {pubkey : Text} {rest : Worker Unit}
    (haction : transaction.action env = some action) (hrest : Touching env transaction rest) :
    Touching env transaction (checkSignature env action.signingString action.senderSignature pubkey
      transaction >>= fun fresh => if (!fresh) = true then pure () else rest) := by
  refine All.bind (all_check .read haction _ _ fun signature _ => ?_) fun fresh => ?_
  · refine .keeps rfl fun db => ?_
    unfold Db.insertUsed
    split <;> rfl
  · split
    · trivial
    · exact hrest

theorem touching_deletedByAuthor (author : Text) :
    Touching env transaction (deletedByAuthor transaction author) := by
  unfold deletedByAuthor
  split
  · trivial
  · exact ⟨.read _, fun _ => trivial⟩

theorem contentRow_message {pubkey signature message : Text} {type : ContentType}
    {referenced : Option Bytes} {row : Content}
    (h : contentRow transaction pubkey signature message type referenced = some row) :
    row.base64EncodedMessage = message := by
  obtain ⟨sender, -, h⟩ := Option.bind_eq_some_iff.mp h
  obtain ⟨sig, -, rfl⟩ := Option.map_eq_some_iff.mp h
  rfl

/-- A content is inserted when its message is valid. -/
theorem touching_insert {pubkey signature message : Text} {type : ContentType}
    {referenced : Option Bytes} {row : Content} (mentions : List Mention)
    (hvalid : ¬ (!(validateKachatMessage message).isOk) = true)
    (hrow : contentRow transaction pubkey signature message type referenced = some row)
    {rest : Bool → Worker Unit} (hrest : ∀ b, Touching env transaction (rest b)) :
    Touching env transaction
      (stmt (.contentInsert row.transactionId) (Db.insertContent row mentions) >>= rest) := by
  refine .stmt_bind (.inserts row mentions ?_) hrest
  rw [contentRow_message hrow]
  simpa using hvalid

theorem touching_pollMentions (row : Content) (keys : List Text) :
    Touching env transaction (insertPollMentions row keys) := by
  induction keys with
  | nil => trivial
  | cons key keys ih =>
    unfold insertPollMentions
    split
    · exact ih
    · exact .execute_bind (.keeps rfl fun _ => rfl) ih

theorem touching_editMentions (post : Bytes) (type : MentionType) (time : ℤ) (sender : Bytes)
    (keys : List Text) : Touching env transaction (insertEditMentions post type time sender keys) := by
  induction keys with
  | nil => trivial
  | cons key keys ih =>
    unfold insertEditMentions
    split
    · exact ih
    · refine .execute_bind (.keeps rfl fun db => ?_) ih
      unfold Db.insertEditMention
      split <;> rfl

theorem touching_applyEdit {k : KEdit} {row : Edit} (haction : transaction.action env = some (.edit k))
    (hpost : hexDecode k.postId = some row.postId)
    (hvalid : (validateKachatMessage k.base64EncodedMessage).isOk = true)
    (hmessage : row.base64EncodedMessage = k.base64EncodedMessage)
    (htime : row.blockTime = transaction.time) (keys : List Text) :
    Touching env transaction (applyEdit row keys) := by
  refine .query_bind (.read _) fun original => ?_
  split
  · split
    · trivial
    · split
      · trivial
      · split
        · trivial
        · refine .execute_bind (.keeps rfl fun db => ?_) (.stmt_bind ?_ fun changed => ?_)
          · unfold Db.insertEdit
            split <;> rfl
          · rw [hmessage, htime]
            exact .updates haction hpost hvalid
          · split
            · trivial
            · exact touching_editMentions _ _ _ _ _
  · trivial

theorem removes_hardDelete {ev : Sql} (hev : writesText ev = false) (id author : Bytes) :
    Touches env transaction ev (Db.hardDeleteContent id author) :=
  .removes hev _ fun _ => rfl

theorem touching_applyDelete (row : Deletion) : Touching env transaction (applyDelete row) := by
  refine .execute_bind (.keeps rfl fun db => ?_) (.query_bind (.read _) fun original => ?_)
  · unfold Db.insertTombstone
    split <;> rfl
  · split
    · split
      · trivial
      · refine .execute_bind (.keeps rfl fun db => ?_) ⟨removes_hardDelete rfl _ _, fun _ => trivial⟩
        unfold Db.insertDelete
        split <;> rfl
    · trivial

theorem touching_saveUnlessDeleted (author : Text) {save : Worker Unit}
    (hsave : Touching env transaction save) :
    Touching env transaction (saveUnlessDeleted transaction author save) := by
  refine All.bind (touching_deletedByAuthor author) fun deleted => ?_
  split
  · trivial
  · refine All.bind hsave fun _ => All.bind (touching_deletedByAuthor author) fun deleted => ?_
    split
    · split
      · exact ⟨removes_hardDelete rfl _ _, fun _ => trivial⟩
      · trivial
    · trivial

theorem touching_storeVote (row : Vote) (mention : Mention) :
    Touching env transaction (storeVote row mention) := by
  refine .query_bind (.read _) fun target => ?_
  split
  · trivial
  · refine .query_bind (.read _) fun replaced => ⟨.keeps rfl fun db => ?_, fun _ => trivial⟩
    simp only [Db.commitVote]
    split <;> rfl

theorem touching_storePollVote (row : PollVote) : Touching env transaction (storePollVote row) := by
  refine .query_bind (.read _) fun poll => ?_
  split
  · split
    · trivial
    · split
      · trivial
      · refine ⟨.keeps rfl fun db => ?_, fun _ => trivial⟩
        unfold Db.insertPollVote
        split <;> rfl
  · trivial

theorem touching_storeTip (outputs : Option (Option (List TxOutput))) (author : Bytes) (row : Tip) :
    Touching env transaction (storeTip outputs author row) := by
  refine .query_bind (.read _) fun target => ?_
  split
  · trivial
  · split
    · dsimp only
      split
      · trivial
      · refine ⟨.keeps rfl fun db => ?_, fun _ => trivial⟩
        unfold Db.insertTip
        split <;> rfl
    · trivial

theorem touching_newest (kind : RelationKind) (row : Relation) (action : Text) {rest : Worker Unit}
    (hrest : Touching env transaction rest) :
    Touching env transaction (relationIsNewest kind row.senderPubkey row.targetPubkey action
      row.blockTime >>= fun newest => if (!newest) = true then pure () else rest) := by
  refine .stmt_bind (.keeps rfl fun db => ?_) fun newest => ?_
  · unfold Db.upsertRelationLast
    split
    · rfl
    · dsimp only
      split <;> rfl
  · split
    · trivial
    · exact hrest

theorem keeps_insertRelation (kind : RelationKind) (row : Relation) :
    Touches env transaction (.relationWrite kind row.senderPubkey row.targetPubkey row.blockTime)
      (Db.insertRelation kind row) := by
  refine .keeps rfl fun db => ?_
  unfold Db.insertRelation
  split <;> rfl

theorem keeps_deleteRelation (kind : RelationKind) (row : Relation) :
    Touches env transaction (.relationWrite kind row.senderPubkey row.targetPubkey row.blockTime)
      (Db.deleteRelation kind row.senderPubkey row.targetPubkey row.blockTime) :=
  .keeps rfl fun _ => rfl

theorem touching_follow (row : Relation) (action : Text) :
    Touching env transaction (follow row action) := by
  refine .query_bind (.read _) fun related => ?_
  split
  · trivial
  · exact touching_newest _ _ _ ⟨keeps_insertRelation _ row, fun _ => trivial⟩

theorem touching_unfollow (row : Relation) (action : Text) :
    Touching env transaction (unfollow row action) :=
  touching_newest _ _ _ ⟨keeps_deleteRelation _ row, fun _ => trivial⟩

theorem touching_block (row : Relation) (action : Text) (targetHex : Option Text) :
    Touching env transaction (block row action targetHex) := by
  refine touching_newest _ _ _ (.execute_bind (keeps_insertRelation _ row) ?_)
  split
  · refine .execute_bind (.keeps rfl fun db => ?_) ⟨.removes rfl _ fun _ => rfl, fun _ => trivial⟩
    unfold Db.insertDenied
    split <;> rfl
  · trivial

theorem touching_unblock (row : Relation) (action : Text) (targetHex : Option Text) :
    Touching env transaction (unblock row action targetHex) := by
  refine touching_newest _ _ _ (.execute_bind (keeps_deleteRelation _ row) ?_)
  split
  · exact ⟨.keeps rfl fun _ => rfl, fun _ => trivial⟩
  · trivial

theorem touching_storeBroadcast (row : Broadcast) :
    Touching env transaction (storeBroadcast row) := by
  refine .query_bind (.read _) fun replay => ?_
  split
  · trivial
  · refine .query_bind (.read _) fun seen => ⟨.keeps rfl fun db => ?_, fun _ => trivial⟩
    unfold Db.commitBroadcast Db.recordBroadcastSignature
    dsimp only
    split <;> split <;> rfl

theorem touching_action {action : KAction} (haction : transaction.action env = some action) :
    Touching env transaction (processAction env outputs transaction action) := by
  cases action with
  | post k =>
    refine touching_saveUnlessDeleted _ (touching_checked haction ?_)
    split
    · trivial
    · next hvalid =>
      split
      · next row hrow =>
        split
        · exact touching_insert _ hvalid hrow fun _ => trivial
        · trivial
      · trivial
  | reply k =>
    refine touching_saveUnlessDeleted _ (touching_checked haction ?_)
    split
    · trivial
    · next hvalid =>
      split
      · split
        · next row hrow =>
          split
          · exact touching_insert _ hvalid hrow fun _ => trivial
          · trivial
        · trivial
      · trivial
  | quote k =>
    refine touching_saveUnlessDeleted _ (touching_checked haction ?_)
    split
    · trivial
    · next hvalid =>
      split
      · split
        · next row hrow =>
          split
          · exact touching_insert _ hvalid hrow fun _ => trivial
          · trivial
        · trivial
      · trivial
  | poll k =>
    refine touching_saveUnlessDeleted _ (touching_checked haction ?_)
    split
    · trivial
    · next hvalid =>
      split
      · trivial
      · split
        · trivial
        · split
          · next row hrow =>
            refine touching_insert _ hvalid hrow fun inserted => ?_
            split
            · trivial
            · refine .execute_bind (.keeps rfl fun db => ?_) (touching_pollMentions _ _)
              unfold Db.insertPoll
              split <;> rfl
          · trivial
  | edit k =>
    refine touching_checked haction ?_
    split
    · trivial
    · next hvalid =>
      repeat' split
      all_goals first
        | trivial
        | exact touching_applyEdit haction (by assumption) (by simpa using hvalid) rfl rfl _
  | delete k =>
    refine touching_checked haction ?_
    repeat' split
    all_goals first | trivial | exact touching_applyDelete _
  | unquote k =>
    refine touching_checked haction ?_
    repeat' split
    all_goals first | trivial | exact ⟨.removes rfl _ fun _ => rfl, fun _ => trivial⟩
  | vote k =>
    refine touching_checked haction ?_
    repeat' split
    all_goals first
      | trivial
      | exact ⟨.keeps rfl fun _ => rfl, fun _ => trivial⟩
      | exact touching_storeVote _ _
  | pollVote k =>
    refine touching_checked haction ?_
    repeat' split
    all_goals first | trivial | exact touching_storePollVote _
  | tip k =>
    refine touching_checked haction ?_
    repeat' split
    all_goals first | trivial | exact touching_storeTip _ _ _
  | follow k =>
    refine touching_checked haction ?_
    repeat' split
    all_goals first | trivial | exact touching_follow _ _ | exact touching_unfollow _ _
  | block k =>
    refine touching_checked haction ?_
    repeat' split
    all_goals first | trivial | exact touching_block _ _ _ | exact touching_unblock _ _ _
  | broadcast k =>
    show Touching env transaction (saveKBroadcastToDatabase env transaction k)
    unfold saveKBroadcastToDatabase
    split
    · trivial
    · refine touching_checked haction ?_
      repeat' split
      all_goals first | trivial | exact touching_storeBroadcast _
  | unknown => trivial

/-- Every statement of a transaction is one of these. -/
theorem touching_transaction (transaction : Transaction) :
    Touching env transaction (processKTransaction env outputs transaction) := by
  unfold processKTransaction
  cases haction : transaction.action env with
  | none => trivial
  | some action =>
    have hdenied : Touching env transaction (isKapostsDenied action) := by
      unfold isKapostsDenied
      split
      · trivial
      · exact ⟨.read _, fun _ => trivial⟩
    refine All.bind hdenied fun denied => ?_
    split
    · trivial
    · exact touching_action haction

end

/-! ## Runs -/

/-- An edit that is about to change a content leaves its tags. -/
def KeepsTags (u : Unicode) (env : Env) (transaction : Transaction) (ev : Sql) (db : Db) : Prop :=
  ∀ post, ev = .contentUpdate post → ∀ k, transaction.action env = some (.edit k) →
    ∀ c ∈ db.contents, Db.editApplies post transaction.time c = true →
      (extractHashtagsFromBase64 u c.base64EncodedMessage).Perm
        (extractHashtagsFromBase64 u k.base64EncodedMessage)

/-- The same, computed. -/
def keepsTags (u : Unicode) (env : Env) (transaction : Transaction) (ev : Sql) (db : Db) : Bool :=
  match ev, transaction.action env with
  | .contentUpdate post, some (.edit k) => db.contents.all fun c =>
      !Db.editApplies post transaction.time c ||
        (extractHashtagsFromBase64 u c.base64EncodedMessage).isPerm
          (extractHashtagsFromBase64 u k.base64EncodedMessage)
  | _, _ => true

theorem keepsTags_sound {u : Unicode} {env : Env} {transaction : Transaction} {ev : Sql} {db : Db}
    (h : keepsTags u env transaction ev db = true) : KeepsTags u env transaction ev db := by
  rintro post rfl k haction c hc happlies
  unfold keepsTags at h
  rw [haction] at h
  have hone := List.all_eq_true.mp h c hc
  rw [happlies] at hone
  exact List.isPerm_iff.mp (by simpa using hone)

/-- One statement keeps the columns. -/
theorem consistent_step {u : Unicode} {env : Env} {transaction : Transaction} {ev : Sql}
    {write : Db → Db} {s : Db × Derived} (h : Touches env transaction ev write)
    (htags : KeepsTags u env transaction ev s.1) (hs : Consistent u s) :
    Consistent u (write s.1, derive u ev s.1 (write s.1) s.2) := by
  cases h with
  | read ev =>
    by_cases hev : writesText ev = false
    · exact consistent_removes hev (fun _ => true) (by simp) hs
    · have hsame : derive u ev s.1 s.1 s.2 = s.2 := by
        cases ev <;> first
          | exact absurd rfl hev
          | exact insertColumns_same _ _ _
          | exact updateColumns_same _ _ _
      show Consistent u (s.1, derive u ev s.1 s.1 s.2)
      rw [hsame]
      exact hs
  | keeps hev hcontents => exact consistent_removes hev (fun _ => true) (by simp [hcontents]) hs
  | removes hev keep hcontents => exact consistent_removes hev keep (hcontents s.1) hs
  | inserts row mentions hvalid => exact consistent_inserts row mentions hvalid hs
  | updates haction _ hvalid =>
    exact consistent_updates hvalid (fun c hc => htags _ rfl _ haction c hc) hs

/-- In every state that any workers reach on any transactions, the columns follow the text, as long as
every edit leaves the tags of the content that it changes. -/
theorem columns_follow (u : Unicode) (env : Env)
    (outputs : Bytes → Option (Option (List TxOutput)))
    {w : World (Db × Derived) Sql Transaction}
    (h : (processor u env outputs (KeepsTags u env)).Reaches (Db.empty, Derived.empty) w) :
    Consistent u w.state := by
  refine h.keeps (Q := fun transaction ev write => ∃ write', Touches env transaction ev write' ∧
    write = fun s => (write' s.1, derive u ev s.1 (write' s.1) s.2)) (fun transaction => ?_) ?_ ?_
  · exact (touching_transaction transaction).beside fun ev write hwrite => ⟨write, hwrite, rfl⟩
  · exact ⟨List.nodup_nil, fun _ h => absurd h List.not_mem_nil, fun _ h => absurd h List.not_mem_nil,
      fun _ h => absurd h List.not_mem_nil⟩
  · rintro transaction ev _ s ⟨write, hwrite, rfl⟩ htags hs
    exact consistent_step hwrite htags hs

/-! ## An edit that changes a tag -/

def sampleUnicode : Unicode := ⟨fun c => c.isAlphanum || c = '_', toAsciiLowercase⟩

/-- The KaChat marker and ` #a`. -/
def taggedPost : Transaction :=
  sample 1 5 ["post".toList, sampleKey '2' '1', sampleSignature 'b', "4oGgICNh".toList]

/-- To ` #b`. -/
def retaggedEdit : Transaction :=
  sample 2 6 ["edit".toList, sampleKey '2' '1', sampleSignature 'c', "01".toList, "4oGgICNi".toList]

/-- To ` #a!`. -/
def taggedEdit : Transaction :=
  sample 2 6 ["edit".toList, sampleKey '2' '1', sampleSignature 'c', "01".toList,
    "4oGgICNhIQ==".toList]

/-- The post is processed, then the edit. -/
def postThenEdit (edit : Transaction) : List (Act Transaction) :=
  [.deliver taggedPost, .deliver edit] ++ statements [(0, 7), (1, 7)]

def sampleWorlds (may : Transaction → Sql → Db × Derived → Bool) (edit : Transaction) :
    Option (World (Db × Derived) Sql Transaction) :=
  Interleaving.run (fun t => (processKTransaction sampleEnv noOutputs t).beside (derive sampleUnicode))
    may (postThenEdit edit) (.start (Db.empty, Derived.empty))

/-- What kind each content is, the tags of its text, and those that are stored for it. -/
def sampleColumns (s : Db × Derived) : List (ContentType × List Text × List Text) :=
  s.1.contents.map fun c => (c.contentType,
    extractHashtagsFromBase64 sampleUnicode c.base64EncodedMessage, tagsOf s.2 c.transactionId)

/-- The post is stored with `a`, the edit says `b`, and `a` stays. -/
theorem edit_keeps_old_tag : ∃ w, (processor sampleUnicode sampleEnv noOutputs fun _ _ _ => True).Reaches
    (Db.empty, Derived.empty) w ∧ ¬ Consistent sampleUnicode w.state := by
  have hrun : ((sampleWorlds (fun _ _ _ => true) retaggedEdit).map fun w => sampleColumns w.state) =
      some [(.post, ["b".toList], ["a".toList])] := by decide +kernel
  obtain ⟨w, hw, hcolumns⟩ := Option.map_eq_some_iff.mp hrun
  refine ⟨w, System.Reaches.start.run (fun _ _ => trivial) (fun _ _ _ _ => trivial) hw, fun h => ?_⟩
  obtain ⟨c, hc, heq⟩ := List.map_eq_singleton_iff.mp hcolumns
  obtain ⟨htype, htags⟩ := Prod.mk.inj heq
  obtain ⟨hnew, hold⟩ := Prod.mk.inj htags
  have hperm := h.tags c (by simp [hc]) (by rw [htype]; decide)
  rw [hnew, hold] at hperm
  exact absurd hperm (by decide)

theorem edit_keeps_tag : ∃ w, sampleWorlds (fun t ev s => keepsTags sampleUnicode sampleEnv t ev s.1)
      taggedEdit = some w ∧ w.jobs.all (·.2.ended) = true ∧ Consistent sampleUnicode w.state := by
  have hrun : ((sampleWorlds (fun t ev s => keepsTags sampleUnicode sampleEnv t ev s.1)
      taggedEdit).map fun w => w.jobs.all (·.2.ended)) = some true := by decide +kernel
  obtain ⟨w, hw, hended⟩ := Option.map_eq_some_iff.mp hrun
  have hreaches : (processor sampleUnicode sampleEnv noOutputs
      (KeepsTags sampleUnicode sampleEnv)).Reaches (Db.empty, Derived.empty) w :=
    System.Reaches.start.run (fun _ _ => trivial) (fun _ _ _ h => keepsTags_sound h) hw
  exact ⟨w, hw, hended, columns_follow sampleUnicode sampleEnv noOutputs hreaches⟩

end KaChatIndexer.KaHashtags

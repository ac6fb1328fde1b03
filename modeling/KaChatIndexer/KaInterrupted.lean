import KaChatIndexer.KaPolls
import KaChatIndexer.KaResume

/-!
# Interrupted actions

A transaction is processed again after a stop between two of its statements. Three actions do not get
past a guard that their first half has tripped: a poll whose question is in, an edit that is applied,
and an operator's block of its own key.
-/
namespace KaChatIndexer.KaInterrupted
open ByteStrings KaText KaActions KaStore KaHandlers KaSample KaStatements KaFreshness KaHashtags
open KaResume Interleaving Interleaving.Prog

variable {env : Env} {transaction : Transaction} {s t : Db} {ran : List Sql} {left : Worker Unit}

/-! ## What a stop can lose -/

/-- The keys of a list that decode. -/
abbrev decoded (keys : List Text) : List Bytes := keys.filterMap hexDecode

/-- The content of a new poll is in, and its options or some of its mentions are not. -/
def PollLost (row : Content) (keys : List Text) (ran : List Sql) (db : Db) : Prop :=
  .contentInsert row.transactionId ∈ ran ∧ KaPolls.conflicts row db = false ∧
    (.pollInsert row.transactionId ∉ ran ∧ db.polls.any (·.postId = row.transactionId) = false ∨
      ran.count (.pollMentionInsert row.transactionId) < (decoded keys).length)

def mentions (post key : Bytes) (db : Db) : Bool :=
  db.mentions.any fun m => m.contentId = post ∧ m.mentionedPubkey = key

/-- An edit is applied, and a key that it mentions, and that was not mentioned before, is not in. -/
def EditLost (post : Bytes) (time : ℤ) (keys : List Text) (ran : List Sql) (db : Db) : Prop :=
  let inserted := ran.count (.editMentionInsert post)
  .contentUpdate post ∈ ran ∧ db.contents.any (Db.editApplies post time) = true ∧
    ∃ key ∈ (decoded keys).drop inserted, key ∉ (decoded keys).take inserted ∧
      mentions post key db = false

/-! ### Polls -/

theorem pollMentions_skip (row : Content) {keys : List Text} (h : decoded keys = []) :
    insertPollMentions row keys = done () := by
  induction keys with
  | nil => rfl
  | cons key keys ih =>
    unfold insertPollMentions
    cases hkey : hexDecode key with
    | none => exact ih (by simpa [hkey] using h)
    | some key' => simp [hkey] at h

theorem pollMentions_length (row : Content) (keys : List Text) (db : Db) :
    ((insertPollMentions row keys).alone db).2.mentions.length =
      db.mentions.length + (decoded keys).length := by
  induction keys generalizing db with
  | nil => rfl
  | cons key keys ih =>
    unfold insertPollMentions
    cases hkey : hexDecode key with
    | none => simpa [hkey] using ih db
    | some key' =>
      have hlength : (decoded (key :: keys)).length = (decoded keys).length + 1 := by
        simp [hkey]
      have hrest := ih (db.insertMention ⟨row.transactionId, .post, key', row.blockTime,
        row.senderPubkey⟩)
      have hone : (db.insertMention ⟨row.transactionId, .post, key', row.blockTime,
          row.senderPubkey⟩).mentions.length = db.mentions.length + 1 := by
        simp [Db.insertMention]
      rw [hlength]
      refine hrest.trans ?_
      omega

/-- A poll's mentions come one after another. -/
theorem stands_pollMentions {row : Content} {keys : List Text}
    (h : (insertPollMentions row keys).Stands s ran t left) :
    ∃ n ≤ (decoded keys).length, ran = List.replicate n (.pollMentionInsert row.transactionId) ∧
      t.mentions.length = s.mentions.length + n ∧
      (n = (decoded keys).length → left = done ()) := by
  induction keys generalizing s ran with
  | nil =>
    obtain ⟨rfl, rfl, rfl⟩ := stands_done h
    exact ⟨0, le_rfl, rfl, rfl, fun _ => rfl⟩
  | cons key keys ih =>
    unfold insertPollMentions at h
    cases hkey : hexDecode key with
    | none =>
      rw [hkey] at h
      simpa [hkey] using ih h
    | some key' =>
      rw [hkey] at h
      have hlength : (decoded (key :: keys)).length = (decoded keys).length + 1 := by
        simp [hkey]
      rcases stands_execute h with ⟨rfl, rfl, rfl⟩ | ⟨rest, rfl, hrest⟩
      · exact ⟨0, Nat.zero_le _, rfl, rfl, fun hn => by omega⟩
      · obtain ⟨n, hle, rfl, ht, hend⟩ := ih hrest
        have hone : (s.insertMention ⟨row.transactionId, .post, key', row.blockTime,
            row.senderPubkey⟩).mentions.length = s.mentions.length + 1 := by
          simp [Db.insertMention]
        exact ⟨n + 1, by omega, List.replicate_succ.symm, by omega, fun hn => hend (by omega)⟩

theorem insertContent_new {row : Content} (h : KaPolls.conflicts row s = false) :
    s.insertContent row [] = (true, { s with contents := s.contents ++ [row] }) := by
  have hinsert : s.insertContent row [] = if KaPolls.conflicts row s = true then (false, s)
      else (true, { s with contents := s.contents ++ [row], mentions := s.mentions ++ [] }) := rfl
  rw [hinsert, h, List.append_nil]
  rfl

theorem insertContent_conflict {row : Content} (rows : List Mention)
    (h : KaPolls.conflicts row s = true) : s.insertContent row rows = (false, s) := if_pos h

theorem storePoll_contents (row : Content) (poll : Poll) (keys : List Text) :
    (execute (.pollInsert row.transactionId) (Db.insertPoll poll) >>= fun _ =>
      insertPollMentions row keys).Frame (fun _ => True) Db.contents := by
  refine .execute_bind trivial (fun db => by simp [Db.insertPoll, apply_ite Db.contents]) ?_
  induction keys with
  | nil => trivial
  | cons key keys ih =>
    unfold insertPollMentions
    split
    · exact ih
    · exact .execute_bind trivial (fun _ => rfl) ih

/-- A poll whose content is in is passed by. -/
theorem storePoll_lostIff {row : Content} {poll : Poll} {keys : List Text}
    (hid : poll.postId = row.transactionId) (h : (storePoll row poll keys).Stands s ran t left) :
    LostIff (storePoll row poll keys) left t (PollLost row keys ran s) := by
  rcases stands_stmt h with ⟨rfl, rfl, rfl⟩ | ⟨rest, rfl, hrest⟩
  · exact .of_meets (Idles.refl _).meets fun hlost => absurd hlost.1 List.not_mem_nil
  cases hconflict : KaPolls.conflicts row s with
  | true =>
    have hsame := insertContent_conflict [] hconflict
    rw [hsame] at hrest
    obtain ⟨rfl, rfl, rfl⟩ := stands_done hrest
    refine .of_meets (Idles.later (Idles.stmt hsame) (Idles.refl _).meets) fun hlost => ?_
    rw [PollLost, hconflict] at hlost
    cases hlost.2.1
  | false =>
    rw [insertContent_new hconflict] at hrest
    dsimp only at hrest
    have hcontents : t.contents = s.contents ++ [row] := hrest.frame (storePoll_contents row poll keys)
    have hagain : KaPolls.conflicts row t = true := by
      unfold KaPolls.conflicts
      rw [hcontents]
      simp
    have hend : (storePoll row poll keys).Idles t (done ()) :=
      Idles.stmt (insertContent_conflict [] hagain)
    refine .after hend ?_
    rcases stands_execute hrest with ⟨rfl, rfl, rfl⟩ | ⟨rest', rfl, hmentions⟩
    · have hcount : [Sql.contentInsert row.transactionId].count
          (.pollMentionInsert row.transactionId) = 0 := by simp
      constructor
      · intro hkept
        have hlength : (decoded keys).length = 0 := by
          by_contra hne
          exact hkept ⟨by simp, hconflict, .inr (by rw [hcount]; omega)⟩
        have hany : s.polls.any (·.postId = row.transactionId) = true := by
          by_contra hno
          exact hkept ⟨by simp, hconflict, .inl ⟨by simp, by simpa using hno⟩⟩
        refine ⟨done (), .refl _, ?_⟩
        rw [pollMentions_skip row (List.length_eq_zero_iff.mp hlength)]
        refine Idles.execute ?_
        unfold Db.insertPoll
        rw [hid, if_pos hany]
      · rintro ⟨-, -, hlost⟩
        refine ⟨.refl _, fun heq => ?_⟩
        generalize hdb : ({ s with contents := s.contents ++ [row] } : Db) = db at heq
        have hframe := congrArg Db.polls (KaPolls.pollMentions_alone row keys (db.insertPoll poll))
        have hpolls : (db.insertPoll poll).polls = db.polls := by
          refine Eq.trans ?_ (congrArg Db.polls heq)
          exact hframe.symm
        have hlength := (pollMentions_length row keys (db.insertPoll poll)).symm.trans
          (congrArg (fun db : Db => db.mentions.length) heq)
        have hkept : (db.insertPoll poll).mentions = db.mentions := by
          simp [Db.insertPoll, apply_ite Db.mentions]
        rcases hlost with ⟨-, hno⟩ | hlost
        · have hnew : db.polls.any (·.postId = poll.postId) = false := by
            rw [hid, ← hdb]
            exact hno
          unfold Db.insertPoll at hpolls
          rw [if_neg (by rw [hnew]; exact Bool.false_ne_true)] at hpolls
          simp at hpolls
        · rw [hcount] at hlost
          rw [hkept] at hlength
          omega
    · obtain ⟨n, hle, rfl, ht, hdone⟩ := stands_pollMentions hmentions
      have hcount : (Sql.contentInsert row.transactionId :: Sql.pollInsert row.transactionId ::
          List.replicate n (Sql.pollMentionInsert row.transactionId)).count
            (.pollMentionInsert row.transactionId) = n := by
        simp
      constructor
      · intro hkept
        rw [hdone (by_contra fun hne => hkept ⟨by simp, hconflict, .inr (by rw [hcount]; omega)⟩)]
        exact (Idles.refl _).meets
      · rintro ⟨-, -, ⟨hno, -⟩ | hlost⟩
        · exact absurd (by simp) hno
        refine ⟨.refl _, fun heq => ?_⟩
        rw [hcount] at hlost
        have hfinal := pollMentions_length row keys
          (({ s with contents := s.contents ++ [row] } : Db).insertPoll poll)
        rw [hmentions.alone, heq] at hfinal
        omega

/-! ### Edits -/

section
variable {post sender : Bytes} {type : MentionType} {time : ℤ}

theorem insertEditMention_kept {m : Mention} (h : mentions m.contentId m.mentionedPubkey t = true) :
    t.insertEditMention m = t := if_pos h

theorem mentions_insertEditMention (m : Mention) (key : Bytes) (db : Db) :
    mentions m.contentId key (db.insertEditMention m) = true ↔
      mentions m.contentId key db = true ∨ key = m.mentionedPubkey := by
  unfold Db.insertEditMention
  split
  · next hany =>
    refine ⟨.inl, fun h => h.elim id fun hkey => ?_⟩
    rw [hkey]
    exact hany
  · simp [Db.insertMention, mentions, List.any_append, @eq_comm _ key]

/-- Keys that are mentioned are passed by. -/
theorem idles_editMentions {keys : List Text} (h : ∀ key ∈ decoded keys, mentions post key t = true) :
    (insertEditMentions post type time sender keys).Idles t (done ()) := by
  induction keys with
  | nil => exact .refl _
  | cons key keys ih =>
    unfold insertEditMentions
    cases hkey : hexDecode key with
    | none => exact ih fun other hother => h other (by simpa [hkey] using hother)
    | some key' =>
      have hkept : t.insertEditMention ⟨post, type, key', time, sender⟩ = t :=
        insertEditMention_kept (h key' (by simp [hkey]))
      refine Idles.trans (Idles.execute hkept) (ih fun other hother => h other ?_)
      simp only [decoded, List.filterMap_cons, hkey, List.mem_cons]
      exact .inr hother

theorem mentions_editMentions (keys : List Text) (key : Bytes) (db : Db) :
    mentions post key ((insertEditMentions post type time sender keys).alone db).2 = true ↔
      mentions post key db = true ∨ key ∈ decoded keys := by
  induction keys generalizing db with
  | nil => simp [insertEditMentions]
  | cons text keys ih =>
    unfold insertEditMentions
    cases hkey : hexDecode text with
    | none => simpa [hkey] using ih db
    | some key' =>
      have hfirst := mentions_insertEditMention ⟨post, type, key', time, sender⟩ key db
      have hrest := ih (db.insertEditMention ⟨post, type, key', time, sender⟩)
      simp only [decoded, List.filterMap_cons, hkey, List.mem_cons]
      rw [← or_assoc, ← hfirst]
      exact hrest

/-- An edit's mentions come one after another. -/
theorem stands_editMentions {keys : List Text}
    (h : (insertEditMentions post type time sender keys).Stands s ran t left) :
    ∃ n later, ran = List.replicate n (.editMentionInsert post) ∧
      decoded later = (decoded keys).drop n ∧
      left = insertEditMentions post type time sender later ∧
      ∀ key, mentions post key t = true ↔
        mentions post key s = true ∨ key ∈ (decoded keys).take n := by
  induction keys generalizing s ran with
  | nil =>
    obtain ⟨rfl, rfl, rfl⟩ := stands_done h
    exact ⟨0, [], rfl, rfl, rfl, by simp⟩
  | cons text keys ih =>
    have hstart := h
    unfold insertEditMentions at h
    cases hkey : hexDecode text with
    | none =>
      rw [hkey] at h
      simpa [hkey] using ih h
    | some key' =>
      rw [hkey] at h
      have hdecoded : decoded (text :: keys) = key' :: decoded keys := by simp [hkey]
      rw [hdecoded]
      rcases stands_execute h with ⟨rfl, rfl, rfl⟩ | ⟨rest, rfl, hrest⟩
      · refine ⟨0, text :: keys, rfl, hdecoded, ?_, by simp⟩
        simp [insertEditMentions, hkey]
      · obtain ⟨n, later, rfl, hlater, hleft, hmentions⟩ := ih hrest
        refine ⟨n + 1, later, List.replicate_succ.symm, hlater, hleft, fun key => ?_⟩
        have hfirst := mentions_insertEditMention ⟨post, type, key', time, sender⟩ key s
        rw [hmentions, List.take_succ_cons, List.mem_cons, ← or_assoc]
        exact or_congr_left hfirst

theorem editMentions_contents (keys : List Text) :
    (insertEditMentions post type time sender keys).Frame (fun _ => True)
      fun db : Db => (db.contents, db.edits) := by
  induction keys with
  | nil => trivial
  | cons key keys ih =>
    unfold insertEditMentions
    split
    · exact ih
    · refine .execute_bind trivial (fun db => ?_) ih
      unfold Db.insertEditMention
      split <;> rfl

end

theorem updateContent_kept {id : Bytes} {message : Text} {time : ℤ}
    (h : t.contents.any (Db.editApplies id time) = false) :
    t.updateContent id message time = (false, t) := by
  have hnone (c : Content) (hc : c ∈ t.contents) : ¬ Db.editApplies id time c = true := fun happlies => by
    rw [List.any_eq_true.mpr ⟨c, hc, happlies⟩] at h
    cases h
  have hmap : (t.contents.map fun c => if Db.editApplies id time c then
      { c with base64EncodedMessage := message, editedAt := some time } else c) = t.contents := by
    rw [List.map_congr_left fun c hc => if_neg (hnone c hc), List.map_id']
  unfold Db.updateContent
  rw [h, hmap]

theorem editApplies_once {id : Bytes} {message : Text} {time : ℤ} (db : Db) :
    (db.updateContent id message time).2.contents.any (Db.editApplies id time) = false := by
  rw [List.any_eq_false]
  intro c hc happlies
  obtain ⟨c₀, -, rfl⟩ := List.mem_map.mp hc
  split at happlies
  · simp [Db.editApplies] at happlies
  · contradiction

theorem insertEdit_kept {row : Edit}
    (h : t.edits.any (·.senderSignature = row.senderSignature) = true) : t.insertEdit row = t :=
  if_pos h

theorem insertEdit_signature (row : Edit) (db : Db) :
    (db.insertEdit row).edits.any (·.senderSignature = row.senderSignature) = true := by
  unfold Db.insertEdit
  split
  · assumption
  · simp

/-- The content that an edit of the row may change. -/
def Editable (row : Edit) (original : Content) : Prop :=
  original.contentType ≠ .poll ∧ original.senderPubkey = row.senderPubkey ∧
    row.blockTime ≤ original.blockTime + editWindowMs

/-- What an edit does to the content that it has found. -/
def editFound (row : Edit) (keys : List Text) (original : Content) : Worker Unit := do
  execute (.editInsert row.postId) (Db.insertEdit row)
  if !(← stmt (.contentUpdate row.postId)
      (Db.updateContent row.postId row.base64EncodedMessage row.blockTime)) then return
  insertEditMentions row.postId (editMentionType original.contentType) row.blockTime
    row.senderPubkey keys

theorem idles_editable {row : Edit} {keys : List Text} {original : Content}
    (heditable : Editable row original) (hfound : t.content row.postId = some original) :
    (applyEdit row keys).Idles t (editFound row keys original) := by
  obtain ⟨htype, hsender, hwindow⟩ := heditable
  refine Idles.trans (Idles.query hfound) ?_
  simp only [htype, hsender, if_false, ne_eq, not_true_eq_false, not_lt.mpr hwindow]
  exact .refl _

/-- An edit stops before it has found a content that it may change, or past that. -/
theorem stands_editable {row : Edit} {keys : List Text} (h : (applyEdit row keys).Stands s ran t left) :
    ((applyEdit row keys).Meets t left ∧ .contentUpdate row.postId ∉ ran) ∨
      ∃ original rest, s.content row.postId = some original ∧ Editable row original ∧
        ran = .contentSelect :: rest ∧ (editFound row keys original).Stands s rest t left := by
  rcases stands_query h with ⟨rfl, rfl, rfl⟩ | ⟨rest, rfl, hrest⟩
  · exact .inl ⟨(Idles.refl _).meets, List.not_mem_nil⟩
  have hselect : Sql.contentUpdate row.postId ∉ [Sql.contentSelect] := by simp
  cases hfound : s.content row.postId with
  | none =>
    rw [hfound] at hrest
    obtain ⟨rfl, rfl, rfl⟩ := stands_done hrest
    exact .inl ⟨Idles.later (Idles.query hfound) (Idles.refl _).meets, hselect⟩
  | some original =>
    rw [hfound] at hrest
    dsimp only at hrest
    by_cases heditable : Editable row original
    · obtain ⟨htype, hsender, hwindow⟩ := heditable
      simp only [htype, hsender, if_false, ne_eq, not_true_eq_false, not_lt.mpr hwindow] at hrest
      exact .inr ⟨original, rest, rfl, ⟨htype, hsender, hwindow⟩, rfl, hrest⟩
    · let decided : Worker Unit := if original.contentType = .poll then pure ()
        else if original.senderPubkey ≠ row.senderPubkey then pure ()
        else if original.blockTime + editWindowMs < row.blockTime then pure ()
        else editFound row keys original
      have hrefused : decided = done () := by
        unfold decided
        split
        · rfl
        · split
          · rfl
          · split
            · rfl
            · exact absurd ⟨by assumption, by push Not at *; assumption, by omega⟩ heditable
      have hrest : decided.Stands s rest t left := hrest
      rw [hrefused] at hrest
      obtain ⟨rfl, rfl, rfl⟩ := stands_done hrest
      refine .inl ⟨Idles.later (Idles.query hfound) ?_, hselect⟩
      show decided.Meets t (done ())
      rw [hrefused]
      exact (Idles.refl _).meets

theorem applyEdit_lostIff {row : Edit} {keys : List Text} (h : (applyEdit row keys).Stands s ran t left) :
    LostIff (applyEdit row keys) left t (EditLost row.postId row.blockTime keys ran s) := by
  rcases stands_editable h with ⟨hmeets, hran⟩ | ⟨original, rest, hfound, heditable, rfl, hrest⟩
  · exact .of_meets hmeets fun hlost => hran hlost.1
  have hidles (t : Db) (found : Content) (hsame : t.content row.postId = some found)
      (htype : found.contentType = original.contentType) (hsender : found.senderPubkey = original.senderPubkey)
      (htime : found.blockTime = original.blockTime) :
      (applyEdit row keys).Idles t (editFound row keys original) := by
    have hsame' : Editable row found := by
      unfold Editable
      rw [htype, hsender, htime]
      exact heditable
    have hidle : (applyEdit row keys).Idles t (editFound row keys found) := idles_editable hsame' hsame
    unfold editFound at hidle ⊢
    rwa [htype] at hidle
  rcases stands_execute hrest with ⟨rfl, rfl, rfl⟩ | ⟨rest', rfl, hupdate⟩
  · exact .of_meets (Idles.meets (hidles t original hfound rfl rfl rfl)) fun hlost => absurd hlost.1 (by simp)
  have hcontents (db : Db) : (db.insertEdit row).contents = db.contents := by
    simp [Db.insertEdit, apply_ite Db.contents]
  have hfound' : (s.insertEdit row).content row.postId = some original := by
    unfold Db.content
    rw [hcontents]
    exact hfound
  rcases stands_stmt hupdate with ⟨rfl, rfl, rfl⟩ | ⟨rest'', rfl, hmentions⟩
  · refine .of_meets (Idles.meets ?_) fun hlost => absurd hlost.1 (by simp)
    exact (hidles _ original hfound' rfl rfl rfl).trans
      (Idles.execute (insertEdit_kept (insertEdit_signature row s)))
  have happlied : ((s.insertEdit row).updateContent row.postId row.base64EncodedMessage
      row.blockTime).1 = s.contents.any (Db.editApplies row.postId row.blockTime) := by
    rw [← hcontents s]
    rfl
  cases hany : s.contents.any (Db.editApplies row.postId row.blockTime) with
  | false =>
    have hkept : (s.insertEdit row).updateContent row.postId row.base64EncodedMessage row.blockTime =
        (false, s.insertEdit row) := updateContent_kept (by rw [hcontents]; exact hany)
    rw [hkept] at hmentions
    obtain ⟨rfl, rfl, rfl⟩ := stands_done hmentions
    refine .of_meets ?_ fun hlost => ?_
    · refine Idles.later ((hidles _ original hfound' rfl rfl rfl).trans
        (Idles.execute (insertEdit_kept (insertEdit_signature row s)))) ?_
      exact Idles.later (Idles.stmt hkept) (Idles.refl _).meets
    · have hlost' := hlost.2.1
      rw [hany] at hlost'
      cases hlost'
  | true =>
    rw [hany] at happlied
    rw [happlied] at hmentions
    generalize hdb : ((s.insertEdit row).updateContent row.postId row.base64EncodedMessage
      row.blockTime).2 = db at hmentions
    have hframe : (t.contents, t.edits) = (db.contents, db.edits) :=
      hmentions.frame (editMentions_contents keys)
    obtain ⟨hcontents', hedits⟩ := Prod.mk.inj hframe
    obtain ⟨n, later, rfl, hlater, rfl, hkeys⟩ := stands_editMentions hmentions
    have hmentioned (key : Bytes) : mentions row.postId key t = true ↔
        mentions row.postId key s = true ∨ key ∈ (decoded keys).take n := by
      have hkept : db.mentions = s.mentions := by
        rw [← hdb]
        simp [Db.updateContent, Db.insertEdit, apply_ite Db.mentions]
      rw [hkeys, mentions, mentions, hkept]
    have hend : (applyEdit row keys).Idles t (done ()) := by
      obtain ⟨found, hfound'', htype, hsender, htime⟩ : ∃ found, t.content row.postId = some found ∧
          found.contentType = original.contentType ∧ found.senderPubkey = original.senderPubkey ∧
          found.blockTime = original.blockTime := by
        let edit (c : Content) : Content := if Db.editApplies row.postId row.blockTime c then
          { c with base64EncodedMessage := row.base64EncodedMessage, editedAt := some row.blockTime } else c
        have hid : (fun c : Content => decide (c.transactionId = row.postId)) ∘ edit =
            fun c => decide (c.transactionId = row.postId) := by
          funext c
          unfold edit
          dsimp only [Function.comp]
          split <;> rfl
        refine ⟨edit original, ?_, ?_⟩
        · unfold Db.content at hfound' ⊢
          rw [hcontents', ← hdb]
          show ((s.insertEdit row).contents.map edit).find? _ = _
          rw [List.find?_map, hid, hfound', Option.map_some]
        · unfold edit
          split <;> exact ⟨rfl, rfl, rfl⟩
      refine (hidles t found hfound'' htype hsender htime).trans ?_
      refine Idles.trans (Idles.execute (insertEdit_kept ?_)) ?_
      · rw [hedits, ← hdb]
        exact insertEdit_signature row s
      · refine Idles.stmt (updateContent_kept ?_)
        rw [hcontents', ← hdb]
        exact editApplies_once _
    refine .after hend ?_
    have hcount : (Sql.contentSelect :: Sql.editInsert row.postId :: Sql.contentUpdate row.postId ::
        List.replicate n (Sql.editMentionInsert row.postId)).count (.editMentionInsert row.postId) = n := by
      simp
    unfold EditLost
    dsimp only
    rw [hcount]
    constructor
    · intro hkept
      refine ⟨done (), .refl _, idles_editMentions fun key hkey => ?_⟩
      by_contra hno
      rw [hmentioned, not_or] at hno
      exact hkept ⟨by simp, hany, key, hlater ▸ hkey, hno.2, by simpa using hno.1⟩
    · rintro ⟨-, -, key, hkey, hnew, hbefore⟩
      refine ⟨.refl _, fun heq => ?_⟩
      have hin : mentions row.postId key ((insertEditMentions row.postId
          (editMentionType original.contentType) row.blockTime row.senderPubkey later).alone t).2 =
            true := (mentions_editMentions later key t).mpr (.inr (hlater ▸ hkey))
      rw [heq, hmentioned, hbefore] at hin
      exact hin.elim (fun h => by cases h) hnew

/-! ### Blocks -/

section
variable {row : Relation} {action : Text}

theorem idles_block {text : Text}
    (hnewest : t.upsertRelationLast .block row.senderPubkey row.targetPubkey action row.blockTime =
      (true, t))
    (hrelates : (t.relations .block).any (Db.relates row.senderPubkey row.targetPubkey) = true) :
    (block row action (some text)).Idles t (operatorBlockTarget text row.targetPubkey) :=
  Idles.trans (Idles.stmt hnewest) (Idles.execute (insertRelation_kept hrelates))

theorem relations_insertDenied (text : Text) (db : Db) :
    (db.insertDenied text).relations = db.relations ∧
      (db.insertDenied text).relationLast = db.relationLast := by
  unfold Db.insertDenied
  split <;> exact ⟨rfl, rfl⟩

/-- A block stops before the denylist has its target, or past that; then only one that purges its own
sender may not go on. -/
theorem stands_block {targetHex : Option Text}
    (h : (block row action targetHex).Stands s ran t left) :
    ((block row action targetHex).Meets t left ∧ t.kapostsDenylist = s.kapostsDenylist ∧
        .denylistInsert ∉ ran) ∨
      ∃ text, targetHex = some text ∧ .denylistInsert ∈ ran ∧
        t.kapostsDenylist = (s.insertDenied text).kapostsDenylist ∧
        (row.senderPubkey ≠ row.targetPubkey → (block row action targetHex).Meets t left) ∧
        (left = execute (.purge row.targetPubkey) (Db.purge row.targetPubkey) ∧
            (∀ target, .purge target ∉ ran) ∧
            (t.relations .block).any (Db.relates row.senderPubkey row.targetPubkey) = true ∨
          left = done () ∧ .purge row.targetPubkey ∈ ran) := by
  rcases stands_stmt h with ⟨rfl, rfl, rfl⟩ | ⟨ran₁, rfl, h₁⟩
  · exact .inl ⟨(Idles.refl _).meets, rfl, List.not_mem_nil⟩
  cases hnewest : (s.upsertRelationLast .block row.senderPubkey row.targetPubkey action
    row.blockTime).1 with
  | false =>
    have hsame := upsert_refused hnewest
    rw [hsame] at h₁
    obtain ⟨rfl, rfl, rfl⟩ := stands_done h₁
    exact .inl ⟨Idles.later (Idles.stmt hsame) (Idles.refl _).meets, rfl, by simp⟩
  | true =>
    rw [hnewest] at h₁
    have hdenylist := (upsert_frame .block row.senderPubkey row.targetPubkey action row.blockTime s).2
    have hagain {t : Db} (hlast : t.relationLast = (s.upsertRelationLast .block row.senderPubkey
        row.targetPubkey action row.blockTime).2.relationLast) := upsert_again hnewest hlast
    generalize hdb : (s.upsertRelationLast .block row.senderPubkey row.targetPubkey action
      row.blockTime).2 = db at h₁ hdenylist hagain
    rcases stands_execute h₁ with ⟨rfl, rfl, rfl⟩ | ⟨ran₂, rfl, h₂⟩
    · exact .inl ⟨Idles.meets (Idles.stmt (hagain rfl)), hdenylist, by simp⟩
    have hrelates := insertRelation_relates .block row db
    have hlast := insertRelation_last .block row db
    have hdenylist₂ : (db.insertRelation .block row).kapostsDenylist = s.kapostsDenylist := by
      rw [← hdenylist]
      simp [Db.insertRelation, Db.setRelations, apply_ite Db.kapostsDenylist]
    generalize db.insertRelation .block row = db₂ at h₂ hrelates hlast hdenylist₂
    cases targetHex with
    | none =>
      obtain ⟨rfl, rfl, rfl⟩ := stands_done h₂
      refine .inl ⟨?_, hdenylist₂, by simp⟩
      exact Idles.meets (Idles.trans (Idles.stmt (hagain hlast))
        (Idles.execute (insertRelation_kept hrelates)))
    | some text =>
      rcases stands_execute h₂ with ⟨rfl, rfl, rfl⟩ | ⟨ran₃, rfl, h₃⟩
      · exact .inl ⟨Idles.meets (idles_block (hagain hlast) hrelates), hdenylist₂, by simp⟩
      obtain ⟨hrelations, hlast₃⟩ := relations_insertDenied text db₂
      have hdenies := insertDenied_denies text db₂
      have hdenylist₃ : (db₂.insertDenied text).kapostsDenylist =
          (s.insertDenied text).kapostsDenylist := by
        unfold Db.insertDenied Db.denies
        rw [hdenylist₂]
        split
        · exact hdenylist₂
        · rfl
      rw [← hrelations] at hrelates
      rw [← hlast₃] at hlast
      generalize db₂.insertDenied text = db₃ at h₃ hrelates hlast hdenies hdenylist₃
      rcases stands_step h₃ with ⟨rfl, rfl, rfl⟩ | ⟨ran₄, rfl, h₄⟩
      · refine .inr ⟨text, rfl, by simp, hdenylist₃, fun _ => ?_, .inl ⟨rfl, by simp, hrelates⟩⟩
        refine Idles.later (idles_block (hagain hlast) hrelates) ?_
        exact Idles.later (Idles.execute (insertDenied_kept hdenies)) (Idles.refl _).meets
      · obtain ⟨rfl, rfl, rfl⟩ := stands_done h₄
        refine .inr ⟨text, rfl, by simp, hdenylist₃, fun hother => ?_, .inr ⟨rfl, by simp⟩⟩
        have hrelates₄ : ((db₃.purge row.targetPubkey).relations .block).any
            (Db.relates row.senderPubkey row.targetPubkey) = true := by
          obtain ⟨r, hr, hof⟩ := List.any_eq_true.mp hrelates
          refine List.any_eq_true.mpr ⟨r, List.mem_filter.mpr ⟨hr, decide_eq_true ?_⟩, hof⟩
          rw [(of_decide_eq_true hof).1]
          exact hother
        refine Idles.later (idles_block (hagain hlast) hrelates₄) ?_
        refine Idles.later (Idles.execute (insertDenied_kept hdenies)) ?_
        exact Idles.meets (.step (purge_twice _ _) (.refl _))

end

/-! ## Actions -/

/-- What processing an action again does not bring back. -/
def Lost (env : Env) (transaction : Transaction) (ran : List Sql) (db : Db) : Prop :=
  match transaction.action env with
  | some (.poll k) => ∃ row, contentRow transaction k.senderPubkey k.senderSignature
      k.base64EncodedQuestion .poll none = some row ∧
        PollLost row (if k.isKchat then k.mentionedPubkeys else []) ran db
  | some (.edit k) => ∃ post, hexDecode k.postId = some post ∧
      EditLost post transaction.time (if k.isKchat then k.mentionedPubkeys else []) ran db
  | some (.block k) => .denylistInsert ∈ ran ∧ (∀ target, .purge target ∉ ran) ∧
      toAsciiLowercase k.blockedUserPubkey = toAsciiLowercase k.senderPubkey
  | _ => False

theorem mem_carried {ev : Sql} (hev : ev.carriesOut = true) : ev ∈ carried ran ↔ ev ∈ ran := by
  simp [carried, hev]

theorem count_carried {ev : Sql} (hev : ev.carriesOut = true) : (carried ran).count ev = ran.count ev :=
  List.count_filter hev

/-- Only what was carried out, and the tables before it, decide. -/
theorem lost_congr {ran' : List Sql} {s' : Db} (hran : carried ran = carried ran')
    (htables : tables s = tables s') : Lost env transaction ran s ↔ Lost env transaction ran' s' := by
  have hmem {ev : Sql} (hev : ev.carriesOut = true) : ev ∈ ran ↔ ev ∈ ran' := by
    rw [← mem_carried hev, hran, mem_carried hev]
  have hcount {ev : Sql} (hev : ev.carriesOut = true) : ran.count ev = ran'.count ev := by
    rw [← count_carried hev, hran, count_carried hev]
  have hcontents : s.contents = s'.contents := by
    simpa [tables] using congrArg Db.contents htables
  have hpolls : s.polls = s'.polls := by
    simpa [tables] using congrArg Db.polls htables
  have hmentions : s.mentions = s'.mentions := by
    simpa [tables] using congrArg Db.mentions htables
  unfold Lost PollLost EditLost KaPolls.conflicts mentions
  simp only [hmem (show (Sql.denylistInsert).carriesOut = true from rfl),
    hmem (show (Sql.contentInsert _).carriesOut = true from rfl),
    hmem (show (Sql.pollInsert _).carriesOut = true from rfl),
    hmem (show (Sql.contentUpdate _).carriesOut = true from rfl),
    hmem (show (Sql.purge _).carriesOut = true from rfl),
    hcount (show (Sql.pollMentionInsert _).carriesOut = true from rfl),
    hcount (show (Sql.editMentionInsert _).carriesOut = true from rfl), hcontents, hpolls, hmentions]

/-- Nothing is lost before anything is carried out. -/
theorem lost_none (h : carried ran = []) : ¬ Lost env transaction ran s := by
  have hmem {ev : Sql} (hev : ev.carriesOut = true) : ev ∉ ran := by
    rw [← mem_carried hev, h]
    exact List.not_mem_nil
  unfold Lost
  split
  · rintro ⟨row, -, hlost, -⟩
    exact hmem rfl hlost
  · rintro ⟨post, -, hlost, -⟩
    exact hmem rfl hlost
  · rintro ⟨hlost, -⟩
    exact hmem rfl hlost
  · exact id

theorem deletedByAuthor_labels (transaction : Transaction) (author : Text) :
    (deletedByAuthor transaction author).All fun ev _ => ev.carriesOut = false := by
  unfold deletedByAuthor
  split
  · trivial
  · exact ⟨rfl, fun _ => trivial⟩

theorem dropIfDeleted_labels (transaction : Transaction) (author : Text) :
    (dropIfDeleted transaction author).All fun ev _ => ev.carriesOut = false := by
  refine All.bind (deletedByAuthor_labels transaction author) fun deleted => ?_
  split
  · split
    · exact ⟨rfl, fun _ => trivial⟩
    · trivial
  · trivial

theorem dropIfDeleted_tombstones (author : Text) :
    (dropIfDeleted transaction author).Frame (fun _ => True) Db.deleteTombstones := by
  refine Frame.bind ?_ fun deleted => ?_
  · unfold deletedByAuthor
    split <;> simp
  · repeat' split
    all_goals simp [Db.hardDeleteContent]

/-- Whether its author has deleted a content depends on the tombstones. -/
theorem idles_deletedByAuthor (transaction : Transaction) (author : Text)
    (htombstones : t.deleteTombstones = s.deleteTombstones) :
    (deletedByAuthor transaction author).Idles t
      (done ((deletedByAuthor transaction author).alone s).1) := by
  unfold deletedByAuthor
  cases hexDecode author with
  | none => exact .refl _
  | some key =>
    have hsame : t.hasTombstone transaction.transactionId key =
        s.hasTombstone transaction.transactionId key := by
      unfold Db.hasTombstone
      rw [htombstones]
    refine .step rfl ?_
    show Idles t (done (t.hasTombstone transaction.transactionId key))
      (done (s.hasTombstone transaction.transactionId key))
    rw [hsame]
    exact .refl _

/-- A content that is saved between two looks for its author's delete. -/
theorem saveUnlessDeleted_lostIff {author : Text} {save : Worker Unit}
    (htombstones : save.Frame (fun _ => True) Db.deleteTombstones)
    (hsave : ∀ ran t left, save.Stands s ran t left →
      LostIff save left t (Lost env transaction ran s))
    (h : (saveUnlessDeleted transaction author save).Stands s ran t left) :
    LostIff (saveUnlessDeleted transaction author save) left t (Lost env transaction ran s) := by
  have hreads : Reads (deletedByAuthor transaction author) := reads_deletedByAuthor author
  have hlabels := deletedByAuthor_labels transaction author
  have hdrop := dropIfDeleted_labels transaction author
  have hkept (db : Db) : ((deletedByAuthor transaction author).alone db).2 = db := by
    unfold deletedByAuthor
    split <;> rfl
  rcases stands_bind h with ⟨left', hleft, rfl⟩ | ⟨ran₁, ran₂, rfl, hlook, hrest⟩
  · exact .of_meets (resumable_of_reads hreads ran t left' hleft).bind
      (lost_none (carried_none (hleft.labels hlabels)))
  have hran₁ := carried_none (hlook.labels hlabels)
  rw [hkept] at hrest
  have hidle := @idles_deletedByAuthor s t transaction author
  cases hdeleted : ((deletedByAuthor transaction author).alone s).1 with
  | true =>
    rw [hdeleted] at hrest hidle
    obtain ⟨rfl, rfl, rfl⟩ := stands_done hrest
    exact .of_meets (hidle rfl).bind.meets (lost_none (by rw [carried_append, hran₁]; rfl))
  | false =>
    rw [hdeleted] at hrest hidle
    have hall : (save >>= fun _ => dropIfDeleted transaction author).Frame (fun _ => True)
        Db.deleteTombstones := htombstones.bind fun _ => dropIfDeleted_tombstones author
    refine .after (hidle (hrest.frame hall)).bind ?_
    have hran : carried ran₂ = carried (ran₁ ++ ran₂) := by
      rw [carried_append, hran₁, List.nil_append]
    refine LostIff.congr ?_ (lost_congr hran rfl)
    have hend (db : Db) (hdb : db.deleteTombstones = s.deleteTombstones) :
        (dropIfDeleted transaction author).Idles db (done ()) := by
      have hlook := idles_deletedByAuthor transaction author hdb
      rw [hdeleted] at hlook
      exact hlook.bind
    rcases stands_bind hrest with ⟨left', hleft, rfl⟩ | ⟨ran₃, ran₄, rfl, hsaved, hlater⟩
    · refine (hsave ran₂ t left' hleft).bind (hend t (hleft.frame htombstones)) ?_
      have hfinal : (left'.alone t).2.deleteTombstones = s.deleteTombstones := by
        rw [← hleft.alone]
        exact htombstones.alone s
      rw [(hend _ hfinal).alone]
      rfl
    · obtain ⟨hidle, hkept⟩ := (hsave _ _ _ hsaved).ended
      generalize (save.alone s).2 = db at hsaved hlater hidle
      have hdb := hsaved.frame htombstones
      have hran : carried (ran₃ ++ ran₄) = carried ran₃ := by
        rw [carried_append, carried_none (hlater.labels hdrop), List.append_nil]
      obtain ⟨rfl, hmeets⟩ : t = db ∧ (dropIfDeleted transaction author).Meets db left := by
        rcases stands_bind hlater with ⟨left', hleft, rfl⟩ | ⟨_, _, -, hlook, hlast⟩
        · obtain ⟨rfl, hleft'⟩ := hleft.idle hreads
          exact ⟨rfl, hleft'.bind.meets⟩
        · have hlook := idles_deletedByAuthor transaction author hdb
          rw [hdeleted] at hlook
          rw [hlook.alone] at hlast
          obtain ⟨-, rfl, rfl⟩ := stands_done hlast
          exact ⟨rfl, (hend _ hdb).meets⟩
      refine .of_meets (Idles.later hidle.bind hmeets) ?_
      rwa [lost_congr hran rfl]

/-- What follows the check of a signature. -/
theorem checked_lostIff {message text pubkey : Text} {rest : Worker Unit}
    (hcarries : rest.Frame Carries Db.usedSignatures)
    (hrest : ∀ s' ran t left, rest.Stands s' ran t left →
      LostIff rest left t (Lost env transaction ran s'))
    (h : (checkSignature env message text pubkey transaction >>= fun fresh =>
      if (!fresh) = true then pure () else rest).Stands s ran t left) :
    LostIff (checkSignature env message text pubkey transaction >>= fun fresh =>
      if (!fresh) = true then pure () else rest) left t (Lost env transaction ran s) := by
  rcases stands_checked hcarries h with ⟨hmeets, -, hran⟩ | ⟨s', later, htables, hran, hstands, hidle⟩
  · exact .of_meets hmeets (lost_none hran)
  · refine .after hidle ((hrest s' later t left hstands).congr ?_)
    exact lost_congr hran.symm htables

/-- The kinds of action that may lose something. -/
def mayLose : Kind → Bool
  | .poll | .edit | .block => true
  | _ => false

theorem lost_never {action : KAction} (haction : transaction.action env = some action)
    (hkind : mayLose action.kind = false) : ¬ Lost env transaction ran s := by
  unfold Lost
  rw [haction]
  cases action with
  | poll | edit | block => cases hkind
  | _ => exact id

theorem resumable_lostIff {p : Worker Unit} (hp : ∀ s, p.Resumable s)
    (hnever : ∀ ran s, ¬ Lost env transaction ran s) (h : p.Stands s ran t left) :
    LostIff p left t (Lost env transaction ran s) :=
  .of_meets (hp s ran t left h) (hnever ran s)

/-- A refused action stops where it starts. -/
theorem refused_lostIff (h : (pure () : Worker Unit).Stands s ran t left) :
    LostIff (pure ()) left t (Lost env transaction ran s) := by
  obtain ⟨rfl, rfl, rfl⟩ := stands_done h
  exact .of_meets (Idles.refl _).meets (lost_none rfl)

section
variable {outputs : Bytes → Option (Option (List TxOutput))}

theorem insert_carries (row : Content) (rows : List Mention) :
    (stmt (.contentInsert row.transactionId) (Db.insertContent row rows) >>= fun _ =>
      (pure () : Worker Unit)).Frame Carries Db.usedSignatures :=
  .stmt_bind rfl fun db => ⟨used_insertContent db row rows, trivial⟩

theorem insert_tombstones (row : Content) (rows : List Mention) :
    (stmt (.contentInsert row.transactionId) (Db.insertContent row rows) >>= fun _ =>
      (pure () : Worker Unit)).Frame (fun _ => True) Db.deleteTombstones := by
  refine .stmt_bind trivial fun db => ⟨?_, trivial⟩
  unfold Db.insertContent
  split <;> rfl

theorem checked_tombstones {message text pubkey : Text} {rest : Worker Unit}
    (hrest : rest.Frame (fun _ => True) Db.deleteTombstones) :
    (checkSignature env message text pubkey transaction >>= fun fresh =>
      if (!fresh) = true then pure () else rest).Frame (fun _ => True) Db.deleteTombstones := by
  refine Frame.bind ?_ fun fresh => ?_
  · exact (idle_check env transaction message text pubkey).comp Db.deleteTombstones
  · split
    · trivial
    · exact hrest

/-- A content whose one insert can be made again. -/
theorem content_lostIff {message text pubkey author : Text} {rest : Worker Unit}
    (hnever : ∀ ran s, ¬ Lost env transaction ran s)
    (htombstones : rest.Frame (fun _ => True) Db.deleteTombstones)
    (hcarries : rest.Frame Carries Db.usedSignatures) (hrest : ∀ s, rest.Resumable s)
    (h : (saveUnlessDeleted transaction author
      (checkSignature env message text pubkey transaction >>= fun fresh =>
        if (!fresh) = true then pure () else rest)).Stands s ran t left) :
    LostIff (saveUnlessDeleted transaction author
      (checkSignature env message text pubkey transaction >>= fun fresh =>
        if (!fresh) = true then pure () else rest)) left t (Lost env transaction ran s) :=
  saveUnlessDeleted_lostIff (checked_tombstones htombstones) (fun _ _ _ h =>
    checked_lostIff hcarries (fun _ _ _ _ h => resumable_lostIff hrest hnever h) h) h

theorem post_lostIff {k : KPost} (haction : transaction.action env = some (.post k))
    (h : (processAction env outputs transaction (.post k)).Stands s ran t left) :
    LostIff (processAction env outputs transaction (.post k)) left t
      (Lost env transaction ran s) := by
  refine content_lostIff (fun _ _ => lost_never haction rfl) ?_ ?_ (fun s => ?_) h
  · repeat' split
    all_goals first | trivial | exact insert_tombstones _ _
  · repeat' split
    all_goals first | trivial | exact insert_carries _ _
  · repeat' split
    all_goals first | exact resumable_done _ | exact insert_resumable _ _ s

theorem reply_lostIff {k : KReply} (haction : transaction.action env = some (.reply k))
    (h : (processAction env outputs transaction (.reply k)).Stands s ran t left) :
    LostIff (processAction env outputs transaction (.reply k)) left t
      (Lost env transaction ran s) := by
  refine content_lostIff (fun _ _ => lost_never haction rfl) ?_ ?_ (fun s => ?_) h
  · repeat' split
    all_goals first | trivial | exact insert_tombstones _ _
  · repeat' split
    all_goals first | trivial | exact insert_carries _ _
  · repeat' split
    all_goals first | exact resumable_done _ | exact insert_resumable _ _ s

theorem quote_lostIff {k : KQuote} (haction : transaction.action env = some (.quote k))
    (h : (processAction env outputs transaction (.quote k)).Stands s ran t left) :
    LostIff (processAction env outputs transaction (.quote k)) left t
      (Lost env transaction ran s) := by
  refine content_lostIff (fun _ _ => lost_never haction rfl) ?_ ?_ (fun s => ?_) h
  · repeat' split
    all_goals first | trivial | exact insert_tombstones _ _
  · repeat' split
    all_goals first | trivial | exact insert_carries _ _
  · repeat' split
    all_goals first | exact resumable_done _ | exact insert_resumable _ _ s

theorem storePoll_tombstones (row : Content) (poll : Poll) (keys : List Text) :
    (storePoll row poll keys).Frame (fun _ => True) Db.deleteTombstones := by
  refine .stmt_bind trivial fun db => ⟨?_, ?_⟩
  · unfold Db.insertContent
    split <;> rfl
  · split
    · trivial
    · refine .execute_bind trivial (fun db => ?_) ?_
      · unfold Db.insertPoll
        split <;> rfl
      · induction keys with
        | nil => trivial
        | cons key keys ih =>
          unfold insertPollMentions
          split
          · exact ih
          · exact .execute_bind trivial (fun _ => rfl) ih

theorem poll_lostIff {k : KPoll} (haction : transaction.action env = some (.poll k))
    (h : (processAction env outputs transaction (.poll k)).Stands s ran t left) :
    LostIff (processAction env outputs transaction (.poll k)) left t
      (Lost env transaction ran s) := by
  refine saveUnlessDeleted_lostIff (checked_tombstones ?_) (fun ran t left h => ?_) h
  · repeat' split
    all_goals first | trivial | exact storePoll_tombstones _ _ _
  refine checked_lostIff ?_ (fun s' ran t left h => ?_) h
  · repeat' split
    all_goals first | trivial | exact carries_poll _ _ _
  revert h
  split
  · exact refused_lostIff
  split
  · exact refused_lostIff
  split
  · exact refused_lostIff
  split
  · next row hrow =>
    intro h
    refine (storePoll_lostIff rfl h).congr ?_
    unfold Lost
    rw [haction]
    dsimp only
    rw [hrow]
    simp
  · exact refused_lostIff

theorem edit_lostIff {k : KEdit} (haction : transaction.action env = some (.edit k))
    (h : (processAction env outputs transaction (.edit k)).Stands s ran t left) :
    LostIff (processAction env outputs transaction (.edit k)) left t
      (Lost env transaction ran s) := by
  refine checked_lostIff ?_ (fun s' ran t left h => ?_) h
  · repeat' split
    all_goals first | trivial | exact carries_edit _ _
  revert h
  split
  · exact refused_lostIff
  split
  · split
    · split
      · next post hpost =>
        intro h
        refine (applyEdit_lostIff h).congr ?_
        unfold Lost
        rw [haction]
        dsimp only
        rw [hpost]
        simp
      · exact refused_lostIff
    · exact refused_lostIff
  · exact refused_lostIff

/-- The handlers that go on wherever they stopped. -/
theorem goesOn_lostIff {action : KAction} (haction : transaction.action env = some action)
    (hkind : mayLose action.kind = false) (hcontent : contentKind action.kind = false)
    (h : (processAction env outputs transaction action).Stands s ran t left) :
    LostIff (processAction env outputs transaction action) left t (Lost env transaction ran s) := by
  have hnever (ran : List Sql) (s : Db) : ¬ Lost env transaction ran s := lost_never haction hkind
  cases action with
  | post | reply | quote | poll => cases hcontent
  | edit | block => cases hkind
  | delete k =>
    refine checked_lostIff ?_ (fun s' ran t left h => resumable_lostIff (fun s => ?_) hnever h) h
    · repeat' split
      all_goals first | trivial | exact carries_delete _
    · repeat' split
      all_goals first | exact resumable_done _ | exact applyDelete_resumable _ s
  | unquote k =>
    refine checked_lostIff ?_ (fun s' ran t left h => resumable_lostIff (fun s => ?_) hnever h) h
    · repeat' split
      all_goals simp [Carries, Judges]
    · repeat' split
      all_goals first
        | exact resumable_done _
        | exact resumable_last (fun _ => rfl) (deleteQuotes_twice _ _ s)
  | vote k =>
    refine checked_lostIff ?_ (fun s' ran t left h => resumable_lostIff (fun s => ?_) hnever h) h
    · repeat' split
      all_goals first | trivial | exact carries_vote _ _ | simp [Carries, Judges]
    · repeat' split
      all_goals first
        | exact resumable_done _
        | exact storeVote_resumable _ _ s
        | exact resumable_last (fun _ => rfl) (deleteVotes_twice _ _ s)
  | pollVote k =>
    refine checked_lostIff ?_ (fun s' ran t left h => resumable_lostIff (fun s => ?_) hnever h) h
    · repeat' split
      all_goals first | trivial | exact carries_pollVote _
    · repeat' split
      all_goals first | exact resumable_done _ | exact storePollVote_resumable _ s
  | tip k =>
    refine checked_lostIff ?_ (fun s' ran t left h => resumable_lostIff (fun s => ?_) hnever h) h
    · repeat' split
      all_goals first | trivial | exact carries_tip _ _ _
    · repeat' split
      all_goals first | exact resumable_done _ | exact storeTip_resumable _ _ _ s
  | follow k =>
    refine checked_lostIff ?_ (fun s' ran t left h => resumable_lostIff (fun s => ?_) hnever h) h
    · repeat' split
      all_goals first | trivial | exact carries_follow _ _ | exact carries_unfollow _ _
    · repeat' split
      all_goals first
        | exact resumable_done _
        | exact follow_resumable _ _ s
        | exact unfollow_resumable _ _ s
  | broadcast k =>
    revert h
    show (saveKBroadcastToDatabase env transaction k).Stands s ran t left → LostIff
      (saveKBroadcastToDatabase env transaction k) left t (Lost env transaction ran s)
    unfold saveKBroadcastToDatabase
    split
    · exact refused_lostIff
    · intro h
      refine checked_lostIff ?_ (fun s' ran t left h => resumable_lostIff (fun s => ?_) hnever h) h
      · repeat' split
        all_goals first | trivial | exact carries_broadcast _
      · repeat' split
        all_goals first | exact resumable_done _ | exact storeBroadcast_resumable _ s
  | unknown => exact refused_lostIff h

/-! ### The denylist -/

/-- Only a block changes the denylist. -/
theorem runs_denylist {ev : Sql} {write : Db → Db} (h : Runs env transaction ev write)
    (hblock : ∀ k, transaction.action env ≠ some (.block k)) (db : Db) :
    (write db).kapostsDenylist = db.kapostsDenylist := by
  cases h with
  | deny haction | purge haction | allow haction => exact absurd haction (hblock _)
  | read | update | unquote | unvote | unrelate | pollMention => rfl
  | used =>
    dsimp only
    unfold Db.insertUsed
    split <;> rfl
  | content =>
    dsimp only
    unfold Db.insertContent
    split <;> rfl
  | poll =>
    unfold Db.insertPoll
    split <;> rfl
  | edit =>
    unfold Db.insertEdit
    split <;> rfl
  | editMention =>
    unfold Db.insertEditMention
    split <;> rfl
  | tombstone =>
    unfold Db.insertTombstone
    split <;> rfl
  | delete =>
    unfold Db.insertDelete
    split <;> rfl
  | vote =>
    simp only [Db.commitVote]
    split <;> rfl
  | pollVote =>
    unfold Db.insertPollVote
    split <;> rfl
  | tip =>
    unfold Db.insertTip
    split <;> rfl
  | newest kind sender target action time => exact (upsert_frame kind sender target action time db).2
  | relate =>
    unfold Db.insertRelation
    split <;> rfl
  | broadcast =>
    unfold Db.commitBroadcast Db.recordBroadcastSignature
    dsimp only
    split <;> split <;> rfl

/-- The statements of a program leave the denylist as it is. -/
abbrev KeepsDenylist {α : Type} (p : Worker α) : Prop :=
  p.All fun _ write => ∀ db, (write db).kapostsDenylist = db.kapostsDenylist

theorem denylist_action {action : KAction} (haction : transaction.action env = some action)
    (hblock : action.kind ≠ .block) : KeepsDenylist (processAction env outputs transaction action) := by
  have hruns {ev : Sql} {write : Db → Db} (h : Runs env transaction ev write) :=
    runs_denylist h fun k hk => hblock (by rw [← Option.some.inj (hk.symm.trans haction)]; rfl)
  have hreads (author : Text) : KeepsDenylist (deletedByAuthor transaction author) :=
    (reads_deletedByAuthor author).imp fun _ _ hwrite db => congrArg Db.kapostsDenylist (hwrite db)
  cases hcontent : contentKind action.kind with
  | true =>
    obtain ⟨author, save, -, hsave, heq⟩ := action_saves outputs haction hcontent
    rw [heq]
    refine All.bind (hreads author) fun deleted => ?_
    split
    · trivial
    · refine All.bind (hsave.imp fun _ _ h => hruns h) fun _ => All.bind (hreads author) fun deleted => ?_
      split
      · split
        · exact ⟨fun _ => rfl, fun _ => trivial⟩
        · trivial
      · trivial
  | false =>
    by_cases hdelete : action.kind = .delete
    · cases action with
      | delete k =>
        have hcheck := (idle_check env transaction (KAction.delete k).signingString k.senderSignature
          k.senderPubkey).comp Db.kapostsDenylist
        refine All.bind (hcheck.all.imp fun _ _ h => h.2) fun fresh => ?_
        split
        · trivial
        · repeat' split
          all_goals try trivial
          refine .execute_bind (fun db => ?_) (.query_bind (fun _ => rfl) fun original => ?_)
          · unfold Db.insertTombstone
            split <;> rfl
          · split
            · split
              · trivial
              · refine .execute_bind (fun db => ?_) ⟨fun _ => rfl, fun _ => trivial⟩
                unfold Db.insertDelete
                split <;> rfl
            · trivial
      | _ => cases hdelete
    · exact (within_action haction hcontent hdelete).imp fun _ _ h => hruns h

theorem denies_of_denylist {db db' : Db} {text : Text} (h : db'.kapostsDenylist = db.kapostsDenylist) :
    db'.denies text = db.denies text := by
  unfold Db.denies
  rw [h]

theorem denies_insertDenied (text pubkey : Text) (db : Db) (h : db.denies pubkey = false) :
    (db.insertDenied text).denies pubkey = decide (toAsciiLowercase text = toAsciiLowercase pubkey) := by
  unfold Db.insertDenied
  split
  · next hin =>
    rw [h, eq_comm, decide_eq_false_iff_not]
    intro heq
    unfold Db.denies at h hin
    rw [heq, h] at hin
    cases hin
  · unfold Db.denies at h ⊢
    simp only [List.contains_append, h, Bool.false_or]
    simp [eq_comm]

theorem denies_removeDenied (text pubkey : Text) (db : Db) (h : db.denies pubkey = false) :
    (db.removeDenied text).denies pubkey = false := by
  unfold Db.denies Db.removeDenied at *
  simp only [List.contains_eq_mem, decide_eq_false_iff_not, List.mem_filter, not_and] at h ⊢
  exact fun hmem => absurd hmem h

/-- Where a block stops: its sender is denied and something is lost, or the second start meets it, or
it was at its end. -/
structure BlockStop (pubkey : Text) (p left : Worker Unit) (t : Db) (lost : Prop) : Prop where
  gone : lost → t.denies pubkey = true ∧ (left.alone t).2 ≠ t
  kept : ¬ lost → t.denies pubkey = false ∧ p.Meets t left ∨ t.denies pubkey = true ∧ left = done ()

theorem blockStop_meets {pubkey : Text} {p : Worker Unit} {lost : Prop} (hmeets : p.Meets t left)
    (hallowed : t.denies pubkey = false) (hkept : ¬ lost) : BlockStop pubkey p left t lost :=
  ⟨fun hlost => absurd hlost hkept, fun _ => .inl ⟨hallowed, hmeets⟩⟩

theorem blockStop_checked {message text pubkey key : Text} {rest : Worker Unit}
    (hallowed : s.denies key = false) (hcarries : rest.Frame Carries Db.usedSignatures)
    (hrest : ∀ s' ran t left, s'.denies key = false → rest.Stands s' ran t left →
      BlockStop key rest left t (Lost env transaction ran s'))
    (h : (checkSignature env message text pubkey transaction >>= fun fresh =>
      if (!fresh) = true then pure () else rest).Stands s ran t left) :
    BlockStop key (checkSignature env message text pubkey transaction >>= fun fresh =>
      if (!fresh) = true then pure () else rest) left t (Lost env transaction ran s) := by
  have hdenies {db db' : Db} (htables : tables db' = tables db) : db'.denies key = db.denies key := by
    have hlist := congrArg Db.kapostsDenylist htables
    exact denies_of_denylist hlist
  rcases stands_checked hcarries h with ⟨hmeets, htables, hran⟩ |
    ⟨s', later, htables, hran, hstands, hidle⟩
  · exact blockStop_meets hmeets ((hdenies htables).trans hallowed) (lost_none hran)
  · obtain ⟨hgone, hkept⟩ := hrest s' later t left ((hdenies htables).trans hallowed) hstands
    rw [lost_congr hran htables.symm]
    refine ⟨hgone, fun hno => (hkept hno).imp_left fun hmeets => ?_⟩
    exact ⟨hmeets.1, Idles.later hidle hmeets.2⟩

theorem refused_blockStop {key : Text} (hallowed : s.denies key = false)
    (h : (pure () : Worker Unit).Stands s ran t left) :
    BlockStop key (pure ()) left t (Lost env transaction ran s) := by
  obtain ⟨rfl, rfl, rfl⟩ := stands_done h
  exact blockStop_meets (Idles.refl _).meets hallowed (lost_none rfl)

theorem unblock_denies {key : Text} {row : Relation} {action : Text} {targetHex : Option Text} :
    (unblock row action targetHex).All fun ev write => ev ≠ .denylistInsert ∧
      ∀ db : Db, db.denies key = false → (write db).denies key = false := by
  refine .stmt_bind ⟨by simp, fun db hdb => ?_⟩ fun newest => ?_
  · exact (denies_of_denylist (upsert_frame _ _ _ _ _ db).2).trans hdb
  · split
    · trivial
    · refine .execute_bind ⟨by simp, fun db hdb => hdb⟩ ?_
      split
      · exact ⟨⟨by simp, fun db hdb => denies_removeDenied _ _ db hdb⟩, fun _ => trivial⟩
      · trivial

theorem unblock_stop {k : KBlock} {row : Relation} {action : Text} {targetHex : Option Text}
    (haction : transaction.action env = some (.block k)) (hallowed : s.denies k.senderPubkey = false)
    (h : (unblock row action targetHex).Stands s ran t left) :
    BlockStop k.senderPubkey (unblock row action targetHex) left t (Lost env transaction ran s) := by
  have hall : (unblock row action targetHex).All fun ev write => ev ≠ .denylistInsert ∧
      ∀ db : Db, db.denies k.senderPubkey = false → (write db).denies k.senderPubkey = false :=
    unblock_denies
  refine blockStop_meets (unblock_resumable row action targetHex s ran t left h) ?_ ?_
  · exact h.keeps (P := fun db => db.denies k.senderPubkey = false) hall (fun _ _ hq => hq.2) hallowed
  · unfold Lost
    rw [haction]
    rintro ⟨hin, -⟩
    exact h.labels (hall.imp fun _ _ hq => hq.1) _ hin rfl

theorem blockTarget_stop {k : KBlock} {row : Relation} {action : Text} {targetHex : Option Text}
    (haction : transaction.action env = some (.block k))
    (hsender : hexDecode k.senderPubkey = some row.senderPubkey)
    (htarget : hexDecode k.blockedUserPubkey = some row.targetPubkey)
    (hhex : ∀ text, targetHex = some text → text = k.blockedUserPubkey)
    (hallowed : s.denies k.senderPubkey = false)
    (h : (block row action targetHex).Stands s ran t left) :
    BlockStop k.senderPubkey (block row action targetHex) left t (Lost env transaction ran s) := by
  have hlost : Lost env transaction ran s ↔ .denylistInsert ∈ ran ∧ (∀ target, .purge target ∉ ran) ∧
      toAsciiLowercase k.blockedUserPubkey = toAsciiLowercase k.senderPubkey := by
    unfold Lost
    rw [haction]
  rw [hlost]
  rcases stands_block h with ⟨hmeets, hlist, hnot⟩ | ⟨text, htext, hin, hlist, hother, hend⟩
  · exact blockStop_meets hmeets ((denies_of_denylist hlist).trans hallowed) fun hlost => hnot hlost.1
  obtain rfl := hhex text htext
  have hdenies := (denies_of_denylist hlist).trans
    (denies_insertDenied k.blockedUserPubkey k.senderPubkey s hallowed)
  by_cases hself : toAsciiLowercase k.blockedUserPubkey = toAsciiLowercase k.senderPubkey
  · rw [decide_eq_true hself] at hdenies
    have hkey : row.senderPubkey = row.targetPubkey := by
      rw [← hexDecode_lower, ← hself, hexDecode_lower, htarget] at hsender
      exact (Option.some.inj hsender).symm
    rcases hend with ⟨rfl, hno, hrelates⟩ | ⟨rfl, hpurged⟩
    · refine ⟨fun _ => ⟨hdenies, fun heq => ?_⟩, fun hkept => absurd ⟨hin, hno, hself⟩ hkept⟩
      obtain ⟨r, hr, hof⟩ := List.any_eq_true.mp hrelates
      have hrelations : (t.relations .block).filter (·.senderPubkey ≠ row.targetPubkey) =
          t.relations .block := congrArg (fun db : Db => db.relations .block) heq
      rw [← hrelations] at hr
      refine of_decide_eq_true (List.mem_filter.mp hr).2 ?_
      rw [(of_decide_eq_true hof).1, hkey]
    · exact ⟨fun hlost => absurd hpurged (hlost.2.1 _), fun _ => .inr ⟨hdenies, rfl⟩⟩
  · rw [decide_eq_false hself] at hdenies
    have hkey : row.senderPubkey ≠ row.targetPubkey := fun heq =>
      hself (hexDecode_inj htarget (heq ▸ hsender))
    exact blockStop_meets (hother hkey) hdenies fun hlost => hself hlost.2.2

/-- A block by its operator stops, is asked again, and goes on, unless it has denied its own sender. -/
theorem block_stop {k : KBlock} (haction : transaction.action env = some (.block k))
    (hallowed : s.denies k.senderPubkey = false)
    (h : (processAction env outputs transaction (.block k)).Stands s ran t left) :
    BlockStop k.senderPubkey (processAction env outputs transaction (.block k)) left t
      (Lost env transaction ran s) := by
  refine blockStop_checked hallowed ?_ (fun s' ran t left hallowed h => ?_) h
  · repeat' split
    all_goals first | trivial | exact carries_block _ _ _ | exact carries_unblock _ _ _
  revert h
  split
  · next sender hsender =>
    split
    · next target htarget =>
      split
      · next signature hsignature =>
        dsimp only
        generalize hhex : (if env.isKapostsOperator k.senderPubkey = true then
          some k.blockedUserPubkey else none) = targetHex
        have htext (text : Text) (htext : targetHex = some text) : text = k.blockedUserPubkey := by
          rw [← hhex] at htext
          split at htext
          · exact (Option.some.inj htext).symm
          · cases htext
        split
        · intro h
          exact blockTarget_stop haction (by exact hsender) (by exact htarget) htext hallowed h
        · exact unblock_stop haction hallowed
      · exact refused_blockStop hallowed
    · exact refused_blockStop hallowed
  · exact refused_blockStop hallowed

/-! ### Transactions -/

theorem action_lostIff {action : KAction} (haction : transaction.action env = some action)
    (hblock : action.kind ≠ .block)
    (h : (processAction env outputs transaction action).Stands s ran t left) :
    LostIff (processAction env outputs transaction action) left t (Lost env transaction ran s) := by
  cases action with
  | post k => exact post_lostIff haction h
  | reply k => exact reply_lostIff haction h
  | quote k => exact quote_lostIff haction h
  | poll k => exact poll_lostIff haction h
  | edit k => exact edit_lostIff haction h
  | block k => exact absurd rfl hblock
  | _ => exact goesOn_lostIff haction rfl rfl h

theorem denied_labels (action : KAction) :
    (isKapostsDenied action).All fun ev _ => ev.carriesOut = false := by
  unfold isKapostsDenied
  split
  · trivial
  · exact ⟨rfl, fun _ => trivial⟩

theorem denied_alone (action : KAction) (db : Db) :
    (isKapostsDenied action).alone db =
      ((actionSenderPubkey action).any fun pubkey => db.denies pubkey, db) := by
  unfold isKapostsDenied
  cases actionSenderPubkey action <;> rfl

theorem process_lostIff (h : (processKTransaction env outputs transaction).Stands s ran t left) :
    LostIff (processKTransaction env outputs transaction) left t (Lost env transaction ran s) := by
  unfold processKTransaction at h ⊢
  cases haction : transaction.action env with
  | none =>
    rw [haction] at h
    exact refused_lostIff h
  | some action =>
    rw [haction] at h
    dsimp only at h ⊢
    rcases stands_bind h with ⟨left', hleft, rfl⟩ | ⟨ran₁, ran₂, rfl, hlook, hrest⟩
    · exact .of_meets (resumable_of_reads (reads_denied action) ran t left' hleft).bind
        (lost_none (carried_none (hleft.labels (denied_labels action))))
    have hran : carried ran₂ = carried (ran₁ ++ ran₂) := by
      rw [carried_append, carried_none (hlook.labels (denied_labels action)), List.nil_append]
    refine LostIff.congr ?_ (lost_congr hran rfl)
    rw [denied_alone] at hrest
    have hend (db : Db) := idles_end (reads_denied action) (t := db)
    simp only [denied_alone] at hend
    cases hdenied : (actionSenderPubkey action).any fun pubkey => s.denies pubkey with
    | true =>
      rw [hdenied] at hrest
      obtain ⟨rfl, rfl, rfl⟩ := stands_done hrest
      have hidle := hend t
      rw [hdenied] at hidle
      exact .of_meets hidle.bind.meets (lost_none rfl)
    | false =>
      rw [hdenied] at hrest
      by_cases hblock : action.kind = .block
      · cases action with
        | block k =>
          have hallowed : s.denies k.senderPubkey = false := hdenied
          obtain ⟨hgone, hkept⟩ : BlockStop k.senderPubkey (processAction env outputs transaction
            (.block k)) left t (Lost env transaction ran₂ s) := block_stop haction hallowed hrest
          have hidle := hend t
          refine ⟨fun hno => ?_, fun hlost => ?_⟩
          · rcases hkept hno with ⟨hfree, hmeets⟩ | ⟨hdeny, rfl⟩
            · rw [show (actionSenderPubkey (.block k)).any (fun pubkey => t.denies pubkey) = false from
                hfree] at hidle
              exact Idles.later hidle.bind hmeets
            · rw [show (actionSenderPubkey (.block k)).any (fun pubkey => t.denies pubkey) = true from
                hdeny] at hidle
              exact hidle.bind.meets
          · obtain ⟨hdeny, hne⟩ := hgone hlost
            rw [show (actionSenderPubkey (.block k)).any (fun pubkey => t.denies pubkey) = true from
              hdeny] at hidle
            exact ⟨hidle.bind, hne⟩
        | _ => cases hblock
      · have hlist : t.kapostsDenylist = s.kapostsDenylist :=
          hrest.keeps (P := fun db => db.kapostsDenylist = s.kapostsDenylist)
            (denylist_action haction hblock) (fun _ _ hq db hdb => (hq db).trans hdb) rfl
        have hidle := hend t
        have hsame : ((actionSenderPubkey action).any fun pubkey => t.denies pubkey) = false := by
          rw [← hdenied]
          congr 1
          funext pubkey
          exact denies_of_denylist hlist
        rw [hsame] at hidle
        exact .after hidle.bind (action_lostIff haction hblock hrest)

end

/-! ## The columns -/

/-- Every tag is of a content that is stored. -/
def Clean (s : Db × Derived) : Prop := ∀ h ∈ s.2.hashtags, (s.1.content h.contentId).isSome = true

section
variable {u : Unicode}

theorem content_isSome {db : Db} {id : Bytes} :
    (db.content id).isSome = true ↔ ∃ c ∈ db.contents, c.transactionId = id := by
  simp [Db.content]

theorem clean_cascade (db : Db) (d : Derived) : Clean (db, cascade db d) :=
  fun _ hh => (List.mem_filter.mp hh).2

/-- A statement that changes nothing derives nothing. -/
theorem derive_same {s : Db × Derived} (hs : Clean s) (ev : Sql) : derive u ev s.1 s.1 s.2 = s.2 := by
  have hcascade : cascade s.1 s.2 = s.2 := by
    unfold cascade
    rw [List.filter_eq_self.mpr hs]
  cases ev with
  | contentInsert id => exact insertColumns_same id s.1 s.2
  | contentUpdate id => exact updateColumns_same id s.1 s.2
  | _ => exact hcascade

theorem insertColumns_clean {id : Bytes} {before after : Db} {d : Derived} (hs : Clean (before, d))
    (hkept : ∀ c ∈ before.contents, ∃ c' ∈ after.contents, c'.transactionId = c.transactionId) :
    Clean (after, insertColumns u id before after d) := by
  have hold (h : Hashtag) (hh : h ∈ d.hashtags) : (after.content h.contentId).isSome = true := by
    obtain ⟨c, hc, hid⟩ := content_isSome.mp (hs h hh)
    obtain ⟨c', hc', hid'⟩ := hkept c hc
    exact content_isSome.mpr ⟨c', hc', hid'.trans hid⟩
  unfold insertColumns
  split
  · next c hbefore hafter =>
    intro h hh
    rcases List.mem_append.mp hh with hh | hh
    · exact hold h hh
    · split at hh
      · cases hh
      · obtain ⟨tag, -, rfl⟩ := List.mem_map.mp hh
        exact content_isSome.mpr ⟨c, (content_mem hafter).1, rfl⟩
  · exact hold

theorem updateColumns_clean {id : Bytes} {before after : Db} {d : Derived} (hs : Clean (before, d))
    (hkept : ∀ c ∈ before.contents, ∃ c' ∈ after.contents, c'.transactionId = c.transactionId) :
    Clean (after, updateColumns id before after d) := by
  have hold (h : Hashtag) (hh : h ∈ d.hashtags) : (after.content h.contentId).isSome = true := by
    obtain ⟨c, hc, hid⟩ := content_isSome.mp (hs h hh)
    obtain ⟨c', hc', hid'⟩ := hkept c hc
    exact content_isSome.mpr ⟨c', hc', hid'.trans hid⟩
  unfold updateColumns
  split
  · exact hold
  · split <;> exact hold

theorem clean_step {ev : Sql} {write : Db → Db} (h : Touches env transaction ev write)
    {s : Db × Derived} (hs : Clean s) : Clean (write s.1, derive u ev s.1 (write s.1) s.2) := by
  cases h with
  | read =>
    show Clean (s.1, derive u ev s.1 s.1 s.2)
    rw [derive_same hs]
    exact hs
  | keeps hev | removes hev =>
    rw [derive_other hev]
    exact clean_cascade _ _
  | inserts row rows =>
    refine insertColumns_clean hs fun c hc => ⟨c, ?_, rfl⟩
    dsimp only
    unfold Db.insertContent
    split
    · exact hc
    · exact List.mem_append_left _ hc
  | updates =>
    refine updateColumns_clean hs fun c hc => ⟨_, List.mem_map_of_mem hc, ?_⟩
    split <;> rfl

/-- Processing starts with a look at the denylist, if it does anything at all. -/
theorem process_starts (env : Env) (transaction : Transaction)
    (outputs : Bytes → Option (Option (List TxOutput))) :
    processKTransaction env outputs transaction = done () ∨
      ∃ next, processKTransaction env outputs transaction = step .denylistSelect id next := by
  unfold processKTransaction
  cases transaction.action env with
  | none => exact .inl rfl
  | some action =>
    unfold isKapostsDenied
    cases action with
    | unknown => exact .inl rfl
    | _ => exact .inr ⟨_, rfl⟩

/-- Wherever the worker stands, the tags are of stored contents, and what it may lose is lost. -/
theorem worker_lostIff {outputs : Bytes → Option (Option (List TxOutput))} {s t : Db × Derived}
    {left : Prog (Db × Derived) Sql Unit}
    (h : ((processKTransaction env outputs transaction).beside (derive u)).Stands s ran t left) :
    LostIff ((processKTransaction env outputs transaction).beside (derive u)) left t
      (Lost env transaction ran s.1) := by
  have hall : ((processKTransaction env outputs transaction).beside (derive u)).All fun ev write' =>
      ∃ write, Touches env transaction ev write ∧
        write' = fun s => (write s.1, derive u ev s.1 (write s.1) s.2) :=
    (touching_transaction transaction).beside fun ev write hwrite => ⟨write, hwrite, rfl⟩
  have hclean : (ran = [] ∧ t = s ∧
      left = (processKTransaction env outputs transaction).beside (derive u)) ∨ Clean t := by
    rcases process_starts env transaction outputs with hdone | ⟨next, hstep⟩
    · rw [hdone] at h ⊢
      exact .inl (stands_done h)
    · rw [hstep] at h hall ⊢
      rcases stands_step h with hhere | ⟨rest, -, hrest⟩
      · exact .inl hhere
      · refine .inr (hrest.keeps (hall.2 s) ?_ (clean_cascade s.1 s.2))
        rintro ev _ ⟨write, hwrite, rfl⟩ s hs
        exact clean_step hwrite hs
  rcases hclean with ⟨rfl, rfl, rfl⟩ | hclean
  · exact .of_meets (Idles.refl _).meets (lost_none rfl)
  · obtain ⟨q, rfl, hq⟩ := stands_beside h
    exact (process_lostIff hq).beside (derive_same hclean)

variable (u) (env) (transaction)

/-- Processing a transaction again, wherever it was stopped and from whatever state, leaves all tables
as one run would have, unless a poll or an edit had left a part of itself out, or its operator's block
had denied its own sender. -/
theorem reprocessing_finishes_iff (outputs : Bytes → Option (Option (List TxOutput))) (n : ℕ)
    (s : Db × Derived) :
    let worker := (processKTransaction env outputs transaction).beside (derive u)
    (worker.alone (worker.stop n s).2.1).2 = (worker.alone s).2 ↔
      ¬ Lost env transaction (worker.stop n s).1 s.1 := by
  intro worker
  have hstands := stands_stop n worker s
  generalize worker.stop n s = stopped at hstands ⊢
  exact (worker_lostIff hstands).resumed_iff hstands

end

/-! ## A poll without its options -/

/-- The worker dies once the question is in; processed again, the poll is found indexed already. -/
theorem options_never_stored :
    let worker := (processKTransaction sampleEnv noOutputs KaPolls.samplePoll).beside
      (derive sampleUnicode)
    let start := (Db.empty, Derived.empty)
    (worker.alone (worker.stop 6 start).2.1).2 ≠ (worker.alone start).2 := by
  intro worker start heq
  have hpolls := congrArg (fun s : Db × Derived => s.1.polls.length) heq
  have hlost : (worker.alone (worker.stop 6 start).2.1).2.1.polls.length = 0 := by decide +kernel
  have hwhole : (worker.alone start).2.1.polls.length = 1 := by decide +kernel
  omega

end KaChatIndexer.KaInterrupted

import KaChatIndexer.KaFreshness
import KaChatIndexer.KaHashtags
import KaChatIndexer.Resumption

/-!
# Handlers started again

A worker stops between two statements, and the handler is started again from the tables it left: its
signature passes once more, and most handlers pass by the statements they have run and go on.
-/
namespace KaChatIndexer.KaResume
open ByteStrings KaText KaActions KaStore KaHandlers KaSample KaStatements KaFreshness KaHashtags
open Interleaving Interleaving.Prog

variable {env : Env} {transaction : Transaction} {s t : Db} {ran : List Sql} {left : Worker Unit}

/-! ## The check of a signature -/

section
variable {signature id first : Bytes}

theorem insertUsed_used (h : t.usedBy signature = some first) :
    t.insertUsed signature id = (false, t) := by simp [Db.insertUsed, h]

theorem judge_reads (signature id first : Bytes) :
    (judgeSignature signature id (some first)).All fun _ write => ∀ db, write db = db := by
  simp only [judgeSignature]
  split <;> simp [execute]

theorem judge_alone (signature id first : Bytes) (db : Db) :
    (judgeSignature signature id (some first)).alone db = (decide (first = id), db) := by
  simp only [judgeSignature]
  split <;> simp [execute, *]

/-- A recorded signature is judged without a change. -/
theorem idles_fresh (id : Bytes) (h : t.usedBy signature = some first) :
    (signatureIsFresh signature id).Idles t (done (decide (first = id))) := by
  have hjudge := idles_end (judge_reads signature id first) (t := t)
  rw [judge_alone] at hjudge
  refine Idles.trans (Idles.query h) ?_
  exact Idles.trans (Idles.stmt (insertUsed_used h)) hjudge

/-- Asked again, the check says what it said. -/
theorem fresh_resumable (signature id : Bytes) (s : Db) : (signatureIsFresh signature id).Resumable s := by
  intro ran t left h
  rcases stands_query h with ⟨-, rfl, rfl⟩ | ⟨rest, -, h₁⟩
  · exact (Idles.refl _).meets
  rcases stands_stmt h₁ with ⟨-, rfl, rfl⟩ | ⟨rest', -, h₂⟩
  · exact Idles.meets (.step rfl (.refl _))
  obtain ⟨first, hsame, hjudge⟩ : ∃ first, (s.insertUsed signature id).2.usedBy signature = some first ∧
      (judgeSignature signature id (some first)).Stands (s.insertUsed signature id).2 rest' t left := by
    cases hused : s.usedBy signature with
    | none =>
      have hinsert : s.insertUsed signature id =
          (true, { s with usedSignatures := (signature, id) :: s.usedSignatures }) := by
        simp [Db.insertUsed, hused]
      rw [hinsert] at h₂ ⊢
      exact ⟨id, by simp [Db.usedBy], h₂⟩
    | some first =>
      rw [insertUsed_used hused] at h₂ ⊢
      rw [hused] at h₂
      exact ⟨first, hused, h₂⟩
  obtain ⟨rfl, hleft⟩ := hjudge.idle (judge_reads _ _ _)
  have hend := idles_end (hjudge.all (judge_reads _ _ _)) (t := (s.insertUsed signature id).2)
  rw [← hjudge.alone, judge_alone] at hend
  exact ⟨_, idles_fresh _ hsame, hend⟩

end

theorem check_resumable (message text pubkey : Text) (s : Db) :
    (checkSignature env message text pubkey transaction).Resumable s := by
  unfold checkSignature
  split
  · split
    · exact fresh_resumable _ _ s
    · exact resumable_done _
  · exact resumable_done _

/-- The statements that carry an action out, of those that ran. -/
def carried (ran : List Sql) : List Sql := ran.filter Sql.carriesOut

theorem carried_append (ran ran' : List Sql) : carried (ran ++ ran') = carried ran ++ carried ran' :=
  List.filter_append ..

theorem carried_none (h : ∀ ev ∈ ran, ev.carriesOut = false) : carried ran = [] := by
  rw [carried, List.filter_eq_nil_iff]
  intro ev hev
  rw [h ev hev]
  exact Bool.false_ne_true

theorem judge_labels (signature id : Bytes) (first : Option Bytes) :
    (judgeSignature signature id first).All fun ev _ => ev.carriesOut = false := by
  unfold judgeSignature
  split
  · simp [execute, Sql.carriesOut]
  · split <;> simp [execute, Sql.carriesOut]

theorem check_labels (env : Env) (transaction : Transaction) (message text pubkey : Text) :
    (checkSignature env message text pubkey transaction).All fun ev _ => ev.carriesOut = false := by
  unfold checkSignature
  split
  · split
    · refine .query_bind rfl fun seen => .stmt_bind rfl fun inserted => ?_
      split
      · exact judge_labels _ _ _
      · split
        · exact judge_labels _ _ _
        · exact .query_bind rfl fun _ => judge_labels _ _ _
    · trivial
  · trivial

/-- A check that passes has recorded the signature for its transaction. -/
theorem check_passed {message text pubkey : Text}
    (h : ((checkSignature env message text pubkey transaction).alone s).1 = true) :
    ∃ signature, hexDecode text = some signature ∧
      verifyKaspaSignature env message text pubkey = true ∧
      ((checkSignature env message text pubkey transaction).alone s).2.usedBy signature =
        some transaction.transactionId := by
  unfold checkSignature at h ⊢
  by_cases hverify : verifyKaspaSignature env message text pubkey = true
  · rw [if_pos hverify] at h ⊢
    cases hsig : hexDecode text with
    | none =>
      rw [hsig] at h
      cases h
    | some signature =>
      rw [hsig] at h
      refine ⟨signature, rfl, hverify, ?_⟩
      show ((signatureIsFresh signature transaction.transactionId).alone s).2.usedBy signature = _
      cases hused : s.usedBy signature with
      | none =>
        rw [fresh_alone (owned_of_unused hused)]
        rw [Db.insertUsed, hused]
        simp [Db.usedBy]
      | some first =>
        have hidle := idles_fresh transaction.transactionId hused
        have hfirst : ((signatureIsFresh signature transaction.transactionId).alone s).1 = true := h
        rw [hidle.alone] at hfirst ⊢
        rw [← of_decide_eq_true hfirst]
        exact hused
  · rw [if_neg hverify] at h
    cases h

theorem idles_check {message text pubkey : Text} {signature : Bytes}
    (hverify : verifyKaspaSignature env message text pubkey = true)
    (hsig : hexDecode text = some signature)
    (hused : t.usedBy signature = some transaction.transactionId) :
    (checkSignature env message text pubkey transaction).Idles t (done true) := by
  unfold checkSignature
  rw [if_pos hverify, hsig]
  have hidle := idles_fresh transaction.transactionId hused
  rw [decide_eq_true rfl] at hidle
  exact hidle

/-- A handler stops in its check, or past it; the check then passes again at once. -/
theorem stands_checked {message text pubkey : Text} {rest : Worker Unit}
    (hrest : rest.Frame Carries Db.usedSignatures)
    (h : (checkSignature env message text pubkey transaction >>= fun fresh =>
      if (!fresh) = true then pure () else rest).Stands s ran t left) :
    ((checkSignature env message text pubkey transaction >>= fun fresh =>
        if (!fresh) = true then pure () else rest).Meets t left ∧ tables t = tables s ∧
          carried ran = []) ∨
      ∃ s' later, tables s' = tables s ∧ carried ran = carried later ∧ rest.Stands s' later t left ∧
        (checkSignature env message text pubkey transaction >>= fun fresh =>
          if (!fresh) = true then pure () else rest).Idles t rest := by
  have hlabels := check_labels env transaction message text pubkey
  rcases stands_bind h with ⟨left', hleft, rfl⟩ | ⟨ran₁, ran₂, rfl, hcheck, hrun⟩
  · exact .inl ⟨(check_resumable _ _ _ s ran t left' hleft).bind, hleft.frame (idle_check _ _ _ _ _),
      carried_none (hleft.labels hlabels)⟩
  have hcarried : carried (ran₁ ++ ran₂) = carried ran₂ := by
    rw [carried_append, carried_none (hcheck.labels hlabels), List.nil_append]
  have htables := (idle_check env transaction message text pubkey).alone s
  cases hfresh : ((checkSignature env message text pubkey transaction).alone s).1 with
  | false =>
    rw [hfresh] at hrun hcheck
    obtain ⟨rfl, rfl, rfl⟩ := stands_done hrun
    obtain ⟨m, hm, hend⟩ := check_resumable _ _ _ s _ _ _ hcheck
    cases hend
    exact .inl ⟨hm.bind.meets, htables, hcarried⟩
  | true =>
    obtain ⟨signature, hsig, hverify, hused⟩ := check_passed hfresh
    rw [hfresh] at hrun
    have hkept : t.usedSignatures =
        ((checkSignature env message text pubkey transaction).alone s).2.usedSignatures :=
      hrun.frame hrest
    refine .inr ⟨_, ran₂, htables, hcarried, hrun, ?_⟩
    exact (idles_check hverify hsig ((congrArg (·.lookup signature) hkept).trans hused)).bind

/-! ## Statements done already -/

theorem insertContent_twice (row : Content) (mentions : List Mention) (db : Db) :
    ((db.insertContent row mentions).2.insertContent row mentions).2 =
      (db.insertContent row mentions).2 := by
  unfold Db.insertContent
  split <;> simp

theorem insertPollVote_twice (row : PollVote) (db : Db) :
    (db.insertPollVote row).insertPollVote row = db.insertPollVote row := by
  unfold Db.insertPollVote
  split <;> simp

theorem insertTip_twice (row : Tip) (mention : Mention) (db : Db) :
    (db.insertTip row mention).insertTip row mention = db.insertTip row mention := by
  unfold Db.insertTip
  split <;> simp

theorem deleteVotes_twice (post sender : Bytes) (db : Db) :
    (db.deleteVotes post sender).deleteVotes post sender = db.deleteVotes post sender := by
  have hnone : (db.votes.filter fun v => ¬ Db.votesOf post sender v).filter (Db.votesOf post sender) =
      [] := by
    rw [List.filter_filter, List.filter_eq_nil_iff]
    simp
  have hvotes : (db.votes.filter fun v => ¬ Db.votesOf post sender v).filter
      (fun v => ¬ Db.votesOf post sender v) = db.votes.filter fun v => ¬ Db.votesOf post sender v := by
    simp [List.filter_filter]
  unfold Db.deleteVotes
  simp only [hnone, hvotes]
  simp [Db.deleteVoteMentions]

theorem deleteQuotes_twice (content sender : Bytes) (db : Db) :
    (db.deleteQuotes content sender).deleteQuotes content sender = db.deleteQuotes content sender := by
  let isQuote (c : Content) : Bool := c.referencedContentId = some content ∧
    c.senderPubkey = sender ∧ (c.contentType = .quote ∨ c.contentType = .repost)
  have hnone : (db.contents.filter fun c => ¬ isQuote c).filter isQuote = [] := by
    rw [List.filter_filter, List.filter_eq_nil_iff]
    simp
  have hcontents : (db.contents.filter fun c => ¬ isQuote c).filter (fun c => ¬ isQuote c) =
      db.contents.filter fun c => ¬ isQuote c := by
    simp [List.filter_filter]
  unfold Db.deleteQuotes
  dsimp only
  rw [hnone, hcontents]
  simp [isQuote]

theorem insertRelation_kept {kind : RelationKind} {row : Relation} {db : Db}
    (h : (db.relations kind).any (Db.relates row.senderPubkey row.targetPubkey) = true) :
    db.insertRelation kind row = db := if_pos h

theorem insertRelation_relates (kind : RelationKind) (row : Relation) (db : Db) :
    ((db.insertRelation kind row).relations kind).any
      (Db.relates row.senderPubkey row.targetPubkey) = true := by
  unfold Db.insertRelation
  split
  · assumption
  · simp [Db.setRelations, Db.relates]

theorem deleteRelation_kept {kind : RelationKind} {sender target : Bytes} {time : ℤ} {db : Db}
    (h : ∀ r ∈ db.relations kind, ¬ (Db.relates sender target r ∧ r.blockTime ≤ time)) :
    db.deleteRelation kind sender target time = db := by
  have hrows : (db.relations kind).filter (fun r =>
      ¬ (Db.relates sender target r ∧ r.blockTime ≤ time)) = db.relations kind :=
    List.filter_eq_self.mpr fun r hr => decide_eq_true (h r hr)
  unfold Db.deleteRelation Db.setRelations
  rw [hrows]
  congr 1
  funext k
  split
  · next hk => rw [hk]
  · rfl

theorem deleteRelation_gone {kind : RelationKind} {sender target : Bytes} {time : ℤ} {db : Db} :
    ∀ r ∈ (db.deleteRelation kind sender target time).relations kind,
      ¬ (Db.relates sender target r ∧ r.blockTime ≤ time) := by
  intro r hr
  simp only [Db.deleteRelation, Db.setRelations, if_true] at hr
  exact of_decide_eq_true (List.mem_filter.mp hr).2

theorem insertDenied_kept {text : Text} {db : Db} (h : db.denies text = true) :
    db.insertDenied text = db := if_pos h

theorem insertDenied_denies (text : Text) (db : Db) : (db.insertDenied text).denies text = true := by
  unfold Db.insertDenied
  split
  · assumption
  · simp [Db.denies]

theorem removeDenied_twice (text : Text) (db : Db) :
    (db.removeDenied text).removeDenied text = db.removeDenied text := by
  simp [Db.removeDenied, List.filter_filter]

theorem purge_twice (target : Bytes) (db : Db) : (db.purge target).purge target = db.purge target := by
  simp [Db.purge, List.filter_filter]

section
variable {kind : RelationKind} {sender target : Bytes} {action : Text} {time : ℤ}

theorem upsert_refused (h : (s.upsertRelationLast kind sender target action time).1 = false) :
    s.upsertRelationLast kind sender target action time = (false, s) := by
  unfold Db.upsertRelationLast at h ⊢
  split at h
  · cases h
  · dsimp only at h ⊢
    split at h
    · cases h
    · next hlate => rw [if_neg hlate]

/-- The newest action, recorded once more. -/
theorem upsert_again (h : (s.upsertRelationLast kind sender target action time).1 = true)
    (hlast : t.relationLast = (s.upsertRelationLast kind sender target action time).2.relationLast) :
    t.upsertRelationLast kind sender target action time = (true, t) := by
  let renew (r : RelationLast) : RelationLast :=
    if Db.isLast kind sender target r then { r with action := action, blockTime := time } else r
  have hkey (r : RelationLast) : Db.isLast kind sender target (renew r) = Db.isLast kind sender target r := by
    unfold renew
    split <;> rfl
  have hrenew (r : RelationLast) : renew (renew r) = renew r := by
    unfold renew
    split
    · next hr =>
      have hsame : Db.isLast kind sender target { r with action := action, blockTime := time } = true := hr
      exact if_pos hsame
    · rfl
  -- what stands is a row of this action and time, and renewing it changes nothing
  suffices hstands : ∃ last, t.relationLast.find? (Db.isLast kind sender target) = some last ∧
      last.blockTime = time ∧ t.relationLast.map renew = t.relationLast by
    obtain ⟨last, hfind, htime, hmap⟩ := hstands
    unfold Db.upsertRelationLast
    rw [hfind]
    dsimp only
    rw [if_pos htime.le]
    exact congrArg (fun rows => (true, { t with relationLast := rows })) hmap
  unfold Db.upsertRelationLast at h hlast
  cases hfind : s.relationLast.find? (Db.isLast kind sender target) with
  | none =>
    rw [hfind] at hlast
    have hrow : Db.isLast kind sender target ⟨kind, sender, fromSecond target, action, time⟩ = true := by
      simp [Db.isLast]
    refine ⟨⟨kind, sender, fromSecond target, action, time⟩, ?_, rfl, ?_⟩
    · rw [hlast, List.find?_append, hfind]
      simp [hrow]
    · rw [hlast, List.map_append]
      congr 1
      · rw [List.map_congr_left fun r hr => ?_, List.map_id]
        exact if_neg (List.find?_eq_none.mp hfind r hr)
      · simp [renew]
  | some last =>
    rw [hfind] at h hlast
    dsimp only at h hlast
    split at h
    · next hle =>
      rw [if_pos hle] at hlast
      have hlast' : t.relationLast = s.relationLast.map renew := hlast
      refine ⟨renew last, ?_, ?_, ?_⟩
      · rw [hlast', List.find?_map]
        have hcomp : Db.isLast kind sender target ∘ renew = Db.isLast kind sender target := funext hkey
        rw [hcomp, hfind, Option.map_some]
      · unfold renew
        rw [if_pos (List.find?_some hfind)]
      · rw [hlast', List.map_map]
        exact List.map_congr_left fun r _ => hrenew r
    · cases h

end

/-! ## Handlers that go on -/

theorem insert_resumable (row : Content) (mentions : List Mention) (s : Db) :
    (stmt (.contentInsert row.transactionId) (Db.insertContent row mentions) >>= fun _ =>
      (pure () : Worker Unit)).Resumable s :=
  resumable_last (fun _ => rfl) (insertContent_twice row mentions s)

theorem storePollVote_polls (row : PollVote) : (storePollVote row).Frame (fun _ => True) Db.polls := by
  refine .query_bind trivial fun poll => ?_
  repeat' split
  all_goals simp [Db.insertPollVote, apply_ite Db.polls]

theorem storePollVote_resumable (row : PollVote) (s : Db) : (storePollVote row).Resumable s := by
  have hframe := storePollVote_polls row
  refine resumable_query ?_ fun ran t left h => ?_
  · split
    · split
      · exact resumable_done _
      · split
        · exact resumable_done _
        · exact resumable_last (fun _ => rfl) (insertPollVote_twice row s)
    · exact resumable_done _
  · rw [h.frame (hframe.2 s).2]

theorem storeTip_contents (outputs : Option (Option (List TxOutput))) (author : Bytes) (row : Tip) :
    (storeTip outputs author row).Frame (fun _ => True) Db.contents := by
  refine .query_bind trivial fun target => ?_
  split
  · trivial
  · split
    · dsimp only
      split
      · trivial
      · simp [Db.insertTip, apply_ite Db.contents]
    · trivial

theorem storeTip_resumable (outputs : Option (Option (List TxOutput))) (author : Bytes) (row : Tip)
    (s : Db) : (storeTip outputs author row).Resumable s := by
  have hframe := storeTip_contents outputs author row
  refine resumable_query ?_ fun ran t left h => ?_
  · split
    · exact resumable_done _
    · split
      · dsimp only
        split
        · exact resumable_done _
        · exact resumable_last (fun _ => rfl) (insertTip_twice _ _ s)
      · exact resumable_done _
  · rw [h.frame (hframe.2 s).2]

/-- The votes that a vote has replaced are gone, and it conflicts with itself. -/
theorem commitVote_again (row : Vote) (mention : Mention) (db : Db) :
    let db' := Db.commitVote row mention ((db.replacedVotes row).map (·.transactionId)) db
    db'.replacedVotes row = [] ∧ Db.commitVote row mention [] db' = db' := by
  intro db'
  have hvotes : ∀ v ∈ db'.votes, v = row ∨ v ∈ db.votes ∧
      v.transactionId ∉ (db.replacedVotes row).map (·.transactionId) := by
    intro v hv
    unfold db' Db.commitVote at hv
    dsimp only at hv
    split at hv
    · exact .inr (by simpa using hv)
    · rcases List.mem_append.mp hv with hv | hv
      · exact .inr (by simpa using hv)
      · exact .inl (List.mem_singleton.mp hv)
  have hconflict : db'.votes.any (Db.voteConflict row) = true := by
    unfold db' Db.commitVote
    dsimp only
    split
    · assumption
    · simp [Db.voteConflict]
  constructor
  · unfold Db.replacedVotes
    rw [List.filter_eq_nil_iff]
    intro v hv hreplaced
    have hreplaced := of_decide_eq_true hreplaced
    rcases hvotes v hv with rfl | ⟨hmem, hgone⟩
    · exact hreplaced.2.2 rfl
    · exact hgone (List.mem_map_of_mem (List.mem_filter.mpr ⟨hmem, decide_eq_true hreplaced⟩))
  · unfold Db.commitVote
    have hkept : db'.votes.filter (fun v => v.transactionId ∉ ([] : List Bytes)) = db'.votes := by simp
    have hmentions : Db.deleteVoteMentions [] db'.mentions = db'.mentions := by
      simp [Db.deleteVoteMentions]
    simp only [hkept, hmentions, hconflict, if_true]

theorem storeVote_contents (row : Vote) (mention : Mention) :
    (storeVote row mention).Frame (fun _ => True) Db.contents := by
  refine .query_bind trivial fun target => ?_
  split
  · trivial
  · exact .query_bind trivial fun replaced => by simp [Db.commitVote, apply_ite Db.contents]

theorem storeVote_resumable (row : Vote) (mention : Mention) (s : Db) :
    (storeVote row mention).Resumable s := by
  have hframe := storeVote_contents row mention
  refine resumable_query ?_ fun ran t left h => ?_
  · split
    · exact resumable_done _
    · intro ran t left h
      rcases stands_query h with ⟨-, rfl, rfl⟩ | ⟨rest, -, h⟩
      · exact (Idles.refl _).meets
      rcases stands_step h with ⟨-, rfl, rfl⟩ | ⟨rest', -, h⟩
      · exact (Idles.query rfl).meets
      · obtain ⟨-, rfl, rfl⟩ := stands_done h
        obtain ⟨hreplaced, hagain⟩ := commitVote_again row mention s
        exact Idles.meets ((Idles.query hreplaced).trans (.step hagain (.refl _)))
  · unfold Db.content
    rw [h.frame (hframe.2 s).2]

/-! ### Follows and blocks -/

theorem insertRelation_last (kind : RelationKind) (row : Relation) (db : Db) :
    (db.insertRelation kind row).relationLast = db.relationLast := by
  simp [Db.insertRelation, Db.setRelations, apply_ite Db.relationLast]

theorem upsert_frame (kind : RelationKind) (sender target : Bytes) (action : Text) (time : ℤ)
    (db : Db) : (db.upsertRelationLast kind sender target action time).2.contents = db.contents ∧
      (db.upsertRelationLast kind sender target action time).2.kapostsDenylist =
        db.kapostsDenylist := by
  unfold Db.upsertRelationLast
  split
  · exact ⟨rfl, rfl⟩
  · dsimp only
    split <;> exact ⟨rfl, rfl⟩

section
variable {kind : RelationKind} {row : Relation} {action : Text} {rest : Worker Unit}

/-- The newest action of a pair is still the newest when it is asked again. -/
theorem newest_resumable (hlast : rest.Frame (fun _ => True) Db.relationLast)
    (hrest : ∀ s, rest.Resumable s) (s : Db) :
    (relationIsNewest kind row.senderPubkey row.targetPubkey action row.blockTime >>= fun newest =>
      if (!newest) = true then pure () else rest).Resumable s := by
  cases hnewest : (s.upsertRelationLast kind row.senderPubkey row.targetPubkey action
    row.blockTime).1 with
  | false =>
    have hsame := upsert_refused hnewest
    refine resumable_stmt ?_ fun ran t left h => ?_
    · rw [hsame]
      exact resumable_done _
    · rw [hsame] at h ⊢
      obtain ⟨-, rfl, -⟩ := stands_done h
      exact hsame
  | true =>
    refine resumable_stmt ?_ fun ran t left h => ?_
    · rw [hnewest]
      exact hrest _
    · rw [hnewest] at h ⊢
      exact upsert_again hnewest (h.frame hlast)

theorem follow_resumable (row : Relation) (action : Text) (s : Db) :
    (follow row action).Resumable s := by
  have hcontents : (follow row action).Frame (fun _ => True) Db.contents := by
    refine .query_bind trivial fun related => ?_
    split
    · trivial
    · refine .stmt_bind trivial fun db => ⟨(upsert_frame _ _ _ _ _ db).1, ?_⟩
      split
      · trivial
      · simp [insertRelation, Db.insertRelation, Db.setRelations, apply_ite Db.contents]
  have hlast : (insertRelation .follow row).Frame (fun _ => True) Db.relationLast := by
    simp [insertRelation, insertRelation_last]
  have hrest (s : Db) : (insertRelation .follow row).Resumable s :=
    resumable_last (fun _ => rfl) (insertRelation_kept (insertRelation_relates _ row s))
  refine resumable_query ?_ fun ran t left h => ?_
  · split
    · exact resumable_done _
    · exact newest_resumable hlast hrest s
  · unfold Db.kachatRelated
    rw [h.frame (hcontents.2 s).2]

theorem unfollow_resumable (row : Relation) (action : Text) (s : Db) :
    (unfollow row action).Resumable s := by
  have hlast : (deleteRelation .follow row).Frame (fun _ => True) Db.relationLast := by
    simp [deleteRelation, Db.deleteRelation, Db.setRelations]
  have hrest (s : Db) : (deleteRelation .follow row).Resumable s :=
    resumable_last (fun _ => rfl) (deleteRelation_kept deleteRelation_gone)
  exact newest_resumable hlast hrest s

theorem unblock_resumable (row : Relation) (action : Text) (targetHex : Option Text) (s : Db) :
    (unblock row action targetHex).Resumable s := by
  unfold unblock
  refine newest_resumable ?_ (fun s => ?_) s
  · refine .execute_bind trivial (fun _ => rfl) ?_
    split <;> simp [Db.removeDenied]
  · refine resumable_execute ?_ fun ran t left h => ?_
    · split
      · exact resumable_last (fun _ => rfl) (removeDenied_twice _ _)
      · exact resumable_done _
    · have hrelations : t.relations = (s.deleteRelation .block row.senderPubkey row.targetPubkey
          row.blockTime).relations := by
        refine h.frame (?_ : Frame (fun _ => True) Db.relations _)
        split <;> simp [Db.removeDenied]
      refine deleteRelation_kept ?_
      rw [hrelations]
      exact deleteRelation_gone

end

/-! ### Profiles -/

/-- A broadcast that is recorded replaces nothing more. -/
theorem commitBroadcast_again {row : Broadcast} {db : Db}
    (hown : db.broadcastReplay row.senderSignature row.transactionId = false) :
    let db' := Db.commitBroadcast row (db.replacedProfiles row) db
    db'.broadcastReplay row.senderSignature row.transactionId = false ∧
      Db.commitBroadcast row (db'.replacedProfiles row) db' = db' := by
  intro db'
  have hrecorded : (db.recordBroadcastSignature row.senderSignature
      row.transactionId).broadcastSignatures.lookup row.senderSignature = some row.transactionId := by
    unfold Db.recordBroadcastSignature
    split
    · next hsome =>
      obtain ⟨first, hfirst⟩ := Option.isSome_iff_exists.mp hsome
      simp only [Db.broadcastReplay, hfirst, Option.any_some, decide_eq_false_iff_not, not_not] at hown
      rw [hfirst, hown]
    · simp
  have hsignatures : db'.broadcastSignatures.lookup row.senderSignature = some row.transactionId := by
    rw [← hrecorded]
    unfold db' Db.commitBroadcast
    dsimp only
    split <;> rfl
  have hrecord : db'.recordBroadcastSignature row.senderSignature row.transactionId = db' := by
    simp [Db.recordBroadcastSignature, hsignatures]
  refine ⟨by simp [Db.broadcastReplay, hsignatures], ?_⟩
  unfold Db.commitBroadcast
  rw [hrecord]
  cases hreplaced : db.replacedProfiles row with
  | none =>
    have hrows : db'.broadcasts = db.broadcasts := by
      unfold db' Db.commitBroadcast Db.recordBroadcastSignature
      rw [hreplaced]
      dsimp only
      split <;> rfl
    have hagain : db'.replacedProfiles row = none := by
      unfold Db.replacedProfiles at hreplaced ⊢
      rw [hrows]
      exact hreplaced
    rw [hagain]
  | some ids =>
    have hids : ids = (db.broadcasts.filter (Db.otherProfile row)).map (·.transactionId) := by
      unfold Db.replacedProfiles at hreplaced
      split at hreplaced
      · cases hreplaced
      · exact (Option.some.inj hreplaced).symm
    have hbroadcasts : db'.broadcasts =
        if (db.broadcasts.filter fun b => b.transactionId ∉ ids).any
            (·.transactionId = row.transactionId) then db.broadcasts.filter fun b => b.transactionId ∉ ids
        else (db.broadcasts.filter fun b => b.transactionId ∉ ids) ++ [row] := by
      unfold db' Db.commitBroadcast Db.recordBroadcastSignature
      rw [hreplaced]
      dsimp only
      split <;> rfl
    have hnone : ∀ b ∈ db'.broadcasts, ¬ Db.otherProfile row b = true := by
      intro b hb hother
      have hgone (hmem : b ∈ db.broadcasts.filter fun b => b.transactionId ∉ ids) : False := by
        obtain ⟨hb, hkept⟩ := List.mem_filter.mp hmem
        refine of_decide_eq_true hkept ?_
        rw [hids]
        exact List.mem_map_of_mem (List.mem_filter.mpr ⟨hb, hother⟩)
      rw [hbroadcasts] at hb
      split at hb
      · exact hgone hb
      · rcases List.mem_append.mp hb with hb | hb
        · exact hgone hb
        · obtain rfl := List.mem_singleton.mp hb
          exact (of_decide_eq_true hother).2 rfl
    have hself : db'.broadcasts.any (·.transactionId = row.transactionId) = true := by
      rw [hbroadcasts]
      split
      · assumption
      · simp
    have hagain : db'.replacedProfiles row = some [] := by
      unfold Db.replacedProfiles
      rw [if_neg, List.filter_eq_nil_iff.mpr hnone, List.map_nil]
      intro hany
      obtain ⟨b, hb, hnewer⟩ := List.any_eq_true.mp hany
      exact hnone b hb (of_decide_eq_true hnewer).1
    rw [hagain]
    simp only [List.not_mem_nil, not_false_eq_true, decide_true, List.filter_true, hself, if_true]

theorem storeBroadcast_resumable (row : Broadcast) (s : Db) : (storeBroadcast row).Resumable s := by
  intro ran t left h
  rcases stands_query h with ⟨-, rfl, rfl⟩ | ⟨rest, -, h⟩
  · exact (Idles.refl _).meets
  split at h
  · next hreplay =>
    obtain ⟨-, rfl, rfl⟩ := stands_done h
    refine Idles.later (Idles.query hreplay) ?_
    exact (Idles.refl _).meets
  · next hown =>
    have hown := Bool.eq_false_of_not_eq_true hown
    rcases stands_query h with ⟨-, rfl, rfl⟩ | ⟨rest', -, h⟩
    · exact Idles.later (Idles.query hown) (Idles.refl _).meets
    rcases stands_step h with ⟨-, rfl, rfl⟩ | ⟨rest'', -, h⟩
    · refine Idles.later (Idles.query hown) ?_
      exact Idles.later (Idles.query rfl) (Idles.refl _).meets
    · obtain ⟨-, rfl, rfl⟩ := stands_done h
      obtain ⟨hreplay, hagain⟩ := commitBroadcast_again hown
      refine Idles.later (Idles.query hreplay) ?_
      exact Idles.later (Idles.query rfl) (Idles.meets (.step hagain (.refl _)))

/-! ### Deletes -/

theorem applyDelete_resumable (row : Deletion) (s : Db) : (applyDelete row).Resumable s := by
  have htombstone (db : Db) : (db.insertTombstone row).hasTombstone row.postId row.senderPubkey = true := by
    unfold Db.insertTombstone
    split
    · assumption
    · simp [Db.hasTombstone]
  refine resumable_execute ?_ fun ran t left h => if_pos ?_
  · intro ran t left h
    rcases stands_query h with ⟨-, rfl, rfl⟩ | ⟨rest, -, h⟩
    · exact (Idles.refl _).meets
    cases hcontent : (s.insertTombstone row).content row.postId with
    | none =>
      rw [hcontent] at h
      obtain ⟨-, rfl, rfl⟩ := stands_done h
      exact Idles.later (Idles.query hcontent) (Idles.refl _).meets
    | some original =>
      rw [hcontent] at h
      dsimp only at h
      split at h
      · next hother =>
        obtain ⟨-, rfl, rfl⟩ := stands_done h
        refine Idles.later (Idles.query hcontent) ?_
        simpa [hother] using (Idles.refl _).meets
      · next hauthor =>
        rcases stands_execute h with ⟨-, rfl, rfl⟩ | ⟨rest', -, h⟩
        · refine Idles.later (Idles.query hcontent) ?_
          simpa [hauthor] using (Idles.refl _).meets
        rcases stands_step h with ⟨-, rfl, rfl⟩ | ⟨rest'', -, h⟩
        · have hsame : ((s.insertTombstone row).insertDelete row).content row.postId = some original := by
            unfold Db.insertDelete
            split <;> exact hcontent
          have hagain : ((s.insertTombstone row).insertDelete row).insertDelete row =
              (s.insertTombstone row).insertDelete row := by
            unfold Db.insertDelete
            split <;> simp
          refine Idles.later (Idles.query hsame) ?_
          simp only [hauthor, if_false]
          exact Idles.later (Idles.execute hagain) (Idles.refl _).meets
        · obtain ⟨-, rfl, rfl⟩ := stands_done h
          generalize hrows : (s.insertTombstone row).insertDelete row = db
          cases hgone : (Db.hardDeleteContent row.postId row.senderPubkey db).content row.postId with
          | none => exact Idles.later (Idles.query hgone) (Idles.refl _).meets
          | some other =>
            obtain ⟨hother, hid⟩ := content_mem hgone
            have hkept := of_decide_eq_true (List.mem_filter.mp hother).2
            have hne : other.senderPubkey ≠ row.senderPubkey := fun heq => hkept ⟨hid, heq⟩
            refine Idles.later (Idles.query hgone) ?_
            simpa [hne] using (Idles.refl _).meets
  · have hframe : t.deleteTombstones = (s.insertTombstone row).deleteTombstones := by
      refine h.frame (?_ : Frame (fun _ => True) Db.deleteTombstones _)
      refine .query_bind trivial fun original => ?_
      split
      · split
        · trivial
        · refine .execute_bind trivial (fun db => ?_) (frame_execute _ _ |>.mpr ⟨trivial, fun _ => rfl⟩)
          simp [Db.insertDelete, apply_ite Db.deleteTombstones]
      · trivial
    unfold Db.hasTombstone
    rw [hframe]
    exact htombstone s

end KaChatIndexer.KaResume

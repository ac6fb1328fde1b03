import KaChatIndexer.BallotBox
import KaChatIndexer.KaSample
import KaChatIndexer.KaStatements

/-!
# Votes one after another

A vote replaces the key's older one; an unvote removes what is there and leaves no trace. So the
newest action decides exactly when it has been processed since the last unvote, or is itself an
unvote that comes last.
-/
namespace KaChatIndexer.KaVotes
open ByteStrings KaText KaActions KaStore KaHandlers KaSample KaStatements Interleaving
open Interleaving.Prog BallotBox

variable {env : Env} {outputs : Bytes → Option (Option (List TxOutput))} {post voter : Bytes}

/-- The vote that a transaction casts, with its mention; an unvote casts none. -/
def castVote (env : Env) (transaction : Transaction) : Option (Vote × Mention) :=
  match transaction.action env with
  | some (.vote k) =>
    if k.vote = "unvote".toList then none
    else
      (hexDecode k.senderPubkey).bind fun sender =>
        (hexDecode k.senderSignature).bind fun signature =>
          (hexDecode k.postId).bind fun post =>
            (hexDecode k.mentionedPubkey).map fun mentioned =>
              (⟨transaction.transactionId, transaction.time, sender, signature, post, k.vote⟩,
                ⟨transaction.transactionId, .vote, mentioned, transaction.time, sender⟩)
  | _ => none

/-- A signed vote or unvote of the key, in some encoding, on the post. -/
def OnPost (env : Env) (post voter : Bytes) (transaction : Transaction) : Prop :=
  ∃ k sender, Acts env transaction (.vote k) sender ∧ last32 sender = last32 voter ∧
    hexDecode k.postId = some post ∧
    (k.vote ≠ "unvote".toList → (hexDecode k.mentionedPubkey).isSome)

/-- The votes of the key on the post. -/
def votesBy (post voter : Bytes) (db : Db) : List Vote := db.votes.filter (Db.votesOf post voter)

/-- The mentions that some transactions' votes have made. -/
def voteMentions (transactions : List Transaction) (db : Db) : List Mention :=
  db.mentions.filter fun m =>
    m.contentType = .vote ∧ m.contentId ∈ transactions.map (·.transactionId)

theorem votesOf_congr {sender : Bytes} (h : last32 sender = last32 voter) :
    Db.votesOf post sender = Db.votesOf post voter := by
  unfold Db.votesOf
  rw [h]

/-- What casting a vote or withdrawing it leaves of a database whose used signatures are set. -/
def cast (post voter : Bytes) (db : Db) : Option (Vote × Mention) → Db
  | some (row, mention) =>
      db.commitVote row mention ((db.replacedVotes row).map (·.transactionId))
  | none => db.deleteVotes post voter

/-- What processing a vote needs: the post, and that the vote is let in. -/
structure Open (env : Env) (post : Bytes) (transaction : Transaction) (db : Db) : Prop where
  posted : (db.content post).isSome
  admitted : Admitted env transaction db

theorem process_vote (outputs : Bytes → Option (Option (List TxOutput))) {transaction : Transaction}
    {db : Db} (h : OnPost env post voter transaction) (hopen : Open env post transaction db) :
    ∃ signature, transaction.signature env = some signature ∧
      ((processKTransaction env outputs transaction).alone db).2 =
        cast post voter (db.insertUsed signature transaction.transactionId).2
          (castVote env transaction) := by
  obtain ⟨k, sender, ⟨haction, text, htext, hverify, hsender⟩, hvoter, hpost, hmentioned⟩ := h
  obtain rfl := Option.some.inj htext
  obtain ⟨signature, -, hsig, -⟩ := verify_decodes hverify
  have hsig' : hexDecode k.senderSignature = some signature := hsig
  have hverify' : verifyKaspaSignature env (KAction.vote k).signingString k.senderSignature
      k.senderPubkey = true := hverify
  have hsigned : transaction.signature env = some signature := by
    rw [Transaction.signature, haction]
    exact hsig
  refine ⟨signature, hsigned, ?_⟩
  have hallowed := hopen.admitted.allowed k.senderPubkey (by rw [haction]; rfl)
  have hcontents := congrArg Db.contents (tables_insertUsed signature transaction.transactionId db)
  have hposted : (db.insertUsed signature transaction.transactionId).2.content post ≠ none := by
    have hcontent : (db.insertUsed signature transaction.transactionId).2.content post =
        db.content post := congrArg (fun l => l.find? (·.transactionId = post)) hcontents
    rw [hcontent]
    exact Option.isSome_iff_ne_none.mp hopen.posted
  rw [process_alone outputs haction rfl hallowed, processAction, saveKVoteToDatabase,
    checked_alone hverify' hsig' (hopen.admitted.owned _ hsigned)]
  simp only [hsender, hpost, hsig']
  unfold castVote
  simp only [haction, hsender, hpost, hsig', Option.bind_some]
  by_cases hunvote : k.vote = "unvote".toList
  · rw [if_pos hunvote, if_pos hunvote]
    simp only [cast]
    unfold Db.deleteVotes
    rw [votesOf_congr hvoter]
    rfl
  · obtain ⟨mentioned, hm⟩ := Option.isSome_iff_exists.mp (hmentioned hunvote)
    rw [if_neg hunvote, if_neg hunvote]
    simp only [hm, Option.map_some, cast]
    unfold storeVote
    simp [hposted, execute]

/-- A vote touches nothing that another needs. -/
theorem cast_frame (post voter : Bytes) (db : Db) (p : Option (Vote × Mention)) :
    (cast post voter db p).contents = db.contents ∧
      (cast post voter db p).kapostsDenylist = db.kapostsDenylist ∧
        (cast post voter db p).usedSignatures = db.usedSignatures := by
  cases p with
  | none => exact ⟨rfl, rfl, rfl⟩
  | some p =>
    simp only [cast, Db.commitVote]
    split <;> exact ⟨rfl, rfl, rfl⟩

/-- A vote keeps the way open for the others. -/
theorem open_cast {transaction u : Transaction} {signature : Bytes} {db : Db}
    (p : Option (Vote × Mention)) (hsig : transaction.signature env = some signature)
    (hsame : u.signature env = transaction.signature env → u = transaction)
    (h : Open env post u db) :
    Open env post u (cast post voter (db.insertUsed signature transaction.transactionId).2 p) := by
  obtain ⟨hcontents, hdenylist, husedSignatures⟩ :=
    cast_frame post voter (db.insertUsed signature transaction.transactionId).2 p
  have htables := tables_insertUsed signature transaction.transactionId db
  have hcontentsUsed := congrArg Db.contents htables
  have hdenylistUsed : (db.insertUsed signature transaction.transactionId).2.kapostsDenylist =
      db.kapostsDenylist := by
    have hequal := congrArg Db.kapostsDenylist htables
    exact hequal
  refine ⟨?_, admitted_after hsig hsame (hdenylist.trans hdenylistUsed) husedSignatures h.admitted⟩
  have hcontent := congrArg (fun l => (l.find? (·.transactionId = post)).isSome)
    (hcontents.trans hcontentsUsed)
  exact hcontent.trans h.posted

/-! ## One vote -/

/-- Of the transactions' votes, the database holds that of the register, with its mention. -/
structure Tallied (env : Env) (post voter : Bytes) (transactions : List Transaction)
    (register : Option (Vote × Mention)) (db : Db) : Prop where
  votes : votesBy post voter db = (register.map (·.1)).toList
  mentions : voteMentions transactions db = (register.map (·.2)).toList
  others : ∀ v ∈ db.votes, Db.votesOf post voter v = false → ∀ t ∈ transactions,
    v.transactionId ≠ t.transactionId ∧ t.signature env ≠ some v.senderSignature
  cast : ∀ p ∈ register, ∃ t ∈ transactions, castVote env t = some p

variable {transactions : List Transaction} {register : Option (Vote × Mention)} {db : Db}

theorem replacedVotes_eq {row : Vote} (hpost : row.postId = post)
    (hvoter : last32 row.senderPubkey = last32 voter) (db : Db) :
    db.replacedVotes row = (votesBy post voter db).filter fun v =>
      v.blockTime ≤ row.blockTime ∧ v.senderSignature ≠ row.senderSignature := by
  unfold Db.replacedVotes votesBy
  rw [List.filter_filter, hpost, votesOf_congr hvoter]
  congr 1
  funext v
  simp [Bool.and_comm]

theorem voteMentions_delete (ids : List Bytes) (mentions : List Mention) :
    (Db.deleteVoteMentions ids mentions).filter (fun m =>
        m.contentType = .vote ∧ m.contentId ∈ transactions.map (·.transactionId)) =
      Db.deleteVoteMentions ids (mentions.filter fun m =>
        m.contentType = .vote ∧ m.contentId ∈ transactions.map (·.transactionId)) :=
  List.filter_comm ..

/-- The mention of a register that holds a transaction's vote is that vote's. -/
theorem castVote_mention {t : Transaction} {p : Vote × Mention} (h : castVote env t = some p) :
    p.2.contentType = .vote ∧ p.2.contentId = p.1.transactionId ∧
      p.1.transactionId = t.transactionId ∧ p.1.blockTime = t.time ∧
      t.signature env = some p.1.senderSignature := by
  unfold castVote at h
  split at h
  · next k haction =>
    split at h
    · cases h
    · obtain ⟨sender, -, h⟩ := Option.bind_eq_some_iff.mp h
      obtain ⟨signature, hsig, h⟩ := Option.bind_eq_some_iff.mp h
      obtain ⟨post, -, h⟩ := Option.bind_eq_some_iff.mp h
      obtain ⟨mentioned, -, rfl⟩ := Option.map_eq_some_iff.mp h
      refine ⟨rfl, rfl, rfl, rfl, ?_⟩
      rw [Transaction.signature, haction]
      exact hsig
  · cases h

/-- A vote on the post is of the post and of the key. -/
theorem castVote_of {t : Transaction} {p : Vote × Mention} (hon : OnPost env post voter t)
    (h : castVote env t = some p) : p.1.postId = post ∧ last32 p.1.senderPubkey = last32 voter := by
  obtain ⟨k, sender, ⟨haction, text, htext, -, hsender⟩, hvoter, hpost, -⟩ := hon
  obtain rfl := Option.some.inj htext
  unfold castVote at h
  rw [haction] at h
  dsimp only at h
  split at h
  · cases h
  · obtain ⟨sender', hsender', h⟩ := Option.bind_eq_some_iff.mp h
    obtain ⟨signature, -, h⟩ := Option.bind_eq_some_iff.mp h
    obtain ⟨post', hpost', h⟩ := Option.bind_eq_some_iff.mp h
    obtain ⟨mentioned, -, rfl⟩ := Option.map_eq_some_iff.mp h
    obtain rfl := Option.some.inj (hsender'.symm.trans hsender)
    exact ⟨Option.some.inj (hpost'.symm.trans hpost), hvoter⟩

/-- With the votes on the post their mentions go. -/
theorem mentions_forgotten (h : Tallied env post voter transactions register db) :
    (Db.deleteVoteMentions ((votesBy post voter db).map (·.transactionId)) db.mentions).filter
      (fun m => m.contentType = .vote ∧ m.contentId ∈ transactions.map (·.transactionId)) = [] := by
  rw [voteMentions_delete, ← voteMentions, h.mentions, h.votes]
  cases register with
  | none => rfl
  | some p =>
    obtain ⟨t, -, ht⟩ := h.cast p rfl
    obtain ⟨htype, hid, -⟩ := castVote_mention ht
    simp [Db.deleteVoteMentions, htype, hid]

/-- A withdrawal empties the register. -/
theorem tallied_withdraw (h : Tallied env post voter transactions register db) :
    Tallied env post voter transactions none (db.deleteVotes post voter) where
  votes := by
    simp only [votesBy, Db.deleteVotes, List.filter_filter]
    simp
  mentions := mentions_forgotten h
  others v hv hother := h.others v (List.mem_filter.mp hv).1 hother
  cast _ := nofun

/-- A vote that replaces all there is enters the register. -/
theorem tallied_enters {t : Transaction} {p : Vote × Mention}
    (h : Tallied env post voter transactions register db) (ht : t ∈ transactions)
    (hon : OnPost env post voter t) (hcast : castVote env t = some p)
    (hall : db.replacedVotes p.1 = votesBy post voter db) :
    Tallied env post voter transactions (some p)
      (db.commitVote p.1 p.2 ((db.replacedVotes p.1).map (·.transactionId))) := by
  obtain ⟨htype, hmention, hid, -, hsig⟩ := castVote_mention hcast
  obtain ⟨hpost, hvoter⟩ := castVote_of hon hcast
  have hof : Db.votesOf p.1.postId p.1.senderPubkey = Db.votesOf post voter := by
    rw [hpost, votesOf_congr hvoter]
  have hkept (v : Vote)
      (hv : v ∈ db.votes.filter fun v => v.transactionId ∉ (votesBy post voter db).map (·.1)) :
      v ∈ db.votes ∧ Db.votesOf post voter v = false := by
    obtain ⟨hmem, hout⟩ := List.mem_filter.mp hv
    refine ⟨hmem, Bool.eq_false_iff.mpr fun hby => ?_⟩
    exact of_decide_eq_true hout (List.mem_map_of_mem (List.mem_filter.mpr ⟨hmem, hby⟩))
  have hfree : (db.votes.filter fun v =>
      v.transactionId ∉ (votesBy post voter db).map (·.1)).any (Db.voteConflict p.1) = false := by
    refine List.any_eq_false.mpr fun v hv => ?_
    obtain ⟨hmem, hby⟩ := hkept v hv
    obtain ⟨hne, hsigne⟩ := h.others v hmem hby t ht
    have hsig' : v.senderSignature ≠ p.1.senderSignature := fun heq => hsigne (heq ▸ hsig)
    simp [Db.voteConflict, hof, hby, hsig', hid, hne]
  rw [hall]
  unfold Db.commitVote
  simp only [hfree, Bool.false_eq_true, if_false]
  have hown : Db.votesOf post voter p.1 = true := by
    rw [← hof]
    simp [Db.votesOf]
  have hmine : p.2.contentId ∈ transactions.map (·.transactionId) := by
    rw [hmention, hid]
    exact List.mem_map_of_mem ht
  exact {
    votes := by
      have hnone : (db.votes.filter fun v =>
          v.transactionId ∉ (votesBy post voter db).map (·.1)).filter (Db.votesOf post voter) = [] :=
        List.filter_eq_nil_iff.mpr fun v hv => by simp [(hkept v hv).2]
      refine (List.filter_append ..).trans ?_
      rw [hnone]
      simp [hown]
    mentions := by
      simp only [voteMentions, List.filter_append]
      rw [mentions_forgotten h]
      simpa [htype] using hmine
    others := by
      intro v hv hby
      rcases List.mem_append.mp hv with hv | hv
      · exact h.others v (hkept v hv).1 hby
      · obtain rfl := List.mem_singleton.mp hv
        rw [hown] at hby
        cases hby
    cast := fun q hq => ⟨t, ht, Option.some.inj hq ▸ hcast⟩ }

/-- A vote that replaces nothing leaves the one that stands. -/
theorem commitVote_stands {row b : Vote} (mention : Mention) (hb : b ∈ db.votes)
    (hof : Db.votesOf row.postId row.senderPubkey b = true) (hnone : db.replacedVotes row = []) :
    db.commitVote row mention ((db.replacedVotes row).map (·.transactionId)) = db := by
  have hconflict : db.votes.any (Db.voteConflict row) = true :=
    List.any_eq_true.mpr ⟨b, hb, by simp [Db.voteConflict, hof]⟩
  rw [hnone]
  simp [Db.commitVote, Db.deleteVoteMentions, hconflict]

/-- What a vote's transaction leaves of the register. -/
theorem tallied_commit {t : Transaction} {p : Vote × Mention}
    (h : Tallied env post voter transactions register db) (ht : t ∈ transactions)
    (hon : OnPost env post voter t) (hcast : castVote env t = some p)
    (hsame : ∀ u ∈ transactions, u.signature env = t.signature env → u = t) :
    Tallied env post voter transactions (act (·.1.blockTime) register (some p))
      (db.commitVote p.1 p.2 ((db.replacedVotes p.1).map (·.transactionId))) := by
  obtain ⟨-, -, -, -, hsig⟩ := castVote_mention hcast
  obtain ⟨hpost, hvoter⟩ := castVote_of hon hcast
  have hreplaced := replacedVotes_eq hpost hvoter db
  cases register with
  | none =>
    refine tallied_enters h ht hon hcast ?_
    rw [hreplaced, h.votes]
    rfl
  | some b =>
    have hvotes : votesBy post voter db = [b.1] := h.votes
    have hmem : b.1 ∈ votesBy post voter db := by simp [hvotes]
    have hof : Db.votesOf p.1.postId p.1.senderPubkey b.1 = true := by
      rw [hpost, votesOf_congr hvoter]
      exact (List.mem_filter.mp hmem).2
    have hstands (hnone : db.replacedVotes p.1 = []) :=
      commitVote_stands p.2 (List.mem_filter.mp hmem).1 hof hnone
    rw [act_cast]
    split
    · next hle =>
      by_cases heq : b.1.senderSignature = p.1.senderSignature
      · -- a redelivery of the vote that stands
        obtain ⟨u, hu, hcastu⟩ := h.cast b rfl
        obtain ⟨-, -, -, -, hsigu⟩ := castVote_mention hcastu
        obtain rfl := hsame u hu (by rw [hsigu, hsig, heq])
        obtain rfl := Option.some.inj (hcastu.symm.trans hcast)
        rw [hstands (by rw [hreplaced, hvotes]; simp)]
        exact h
      · exact tallied_enters h ht hon hcast (by rw [hreplaced, hvotes]; simp [hle, heq])
    · next hlt =>
      rw [hstands (by rw [hreplaced, hvotes]; simp [hlt])]
      exact h

/-! ## Runs -/

section
variable (outputs : Bytes → Option (Option (List TxOutput)))
  (hon : ∀ t ∈ transactions, OnPost env post voter t)
  (hsame : ∀ t ∈ transactions, ∀ u ∈ transactions, u.signature env = t.signature env → u = t)
include hon hsame

/-- One transaction of the key is one act on the register. -/
theorem process_tallied {t : Transaction} (ht : t ∈ transactions)
    (hopen : ∀ u ∈ transactions, Open env post u db)
    (h : Tallied env post voter transactions register db) :
    (∀ u ∈ transactions, Open env post u ((processKTransaction env outputs t).alone db).2) ∧
      Tallied env post voter transactions (act (·.1.blockTime) register (castVote env t))
        ((processKTransaction env outputs t).alone db).2 := by
  obtain ⟨signature, hsig, hafter⟩ := process_vote outputs (hon t ht) (hopen t ht)
  rw [hafter]
  have htables := tables_insertUsed signature t.transactionId db
  have hused : Tallied env post voter transactions register
      (db.insertUsed signature t.transactionId).2 := by
    have hvotes := congrArg Db.votes htables
    have hmentions := congrArg Db.mentions htables
    exact ⟨(congrArg (List.filter (Db.votesOf post voter)) hvotes).trans h.votes,
      (congrArg (List.filter _) hmentions).trans h.mentions,
      fun v hv => h.others v (hvotes ▸ hv), h.cast⟩
  refine ⟨fun u hu => open_cast _ hsig (hsame t ht u hu) (hopen u hu), ?_⟩
  cases hcast : castVote env t with
  | none =>
    rw [act_none]
    exact tallied_withdraw hused
  | some p => exact tallied_commit hused ht (hon t ht) hcast (hsame t ht)

/-- What the database holds of the votes is what a box holds after the same acts. -/
theorem processAll_tallied {run : List Transaction} (hrun : ∀ t ∈ run, t ∈ transactions)
    (hopen : ∀ u ∈ transactions, Open env post u db)
    (h : Tallied env post voter transactions none db) :
    (∀ u ∈ transactions, Open env post u (processAll env outputs run db)) ∧
      Tallied env post voter transactions (tally (·.1.blockTime) (run.map (castVote env)))
        (processAll env outputs run db) := by
  induction run using List.reverseRecOn with
  | nil => exact ⟨hopen, h⟩
  | append_singleton run t ih =>
    obtain ⟨hopen', h'⟩ := ih fun u hu => hrun u (List.mem_append_left _ hu)
    have hstep := process_tallied outputs hon hsame (hrun t (by simp)) hopen' h'
    rw [processAll, List.foldl_append, List.map_append, List.map_singleton, tally_append]
    exact hstep

end

theorem register_ext {a b : Option (Vote × Mention)}
    (hvote : (a.map (·.1)).toList = (b.map (·.1)).toList)
    (hmention : (a.map (·.2)).toList = (b.map (·.2)).toList) : a = b := by
  cases a <;> cases b <;> simp_all [Prod.ext_iff]

/-- At the end the newest action decides, and there has never been more than one vote. -/
structure Converged (env : Env) (outputs : Bytes → Option (Option (List TxOutput)))
    (post voter : Bytes) (transactions run : List Transaction) (newest : Transaction) (db : Db) :
    Prop where
  single : ∀ before, before <+: run →
    (votesBy post voter (processAll env outputs before db)).length ≤ 1
  vote : votesBy post voter (processAll env outputs run db) =
    ((castVote env newest).map (·.1)).toList
  mention : voteMentions transactions (processAll env outputs run db) =
    ((castVote env newest).map (·.2)).toList

/-- The votes of one key on one post, processed one after another and any of them again, converge
exactly when the newest one has come (again) after the last unvote, or when the newest one is an
unvote and an unvote comes last. -/
theorem votes_converge_iff (outputs : Bytes → Option (Option (List TxOutput)))
    (transactions run : List Transaction) (newest : Transaction) (db : Db)
    (hon : ∀ t ∈ transactions, OnPost env post voter t)
    (hsame : ∀ t ∈ transactions, ∀ u ∈ transactions, u.signature env = t.signature env → u = t)
    (hnewest : newest ∈ transactions)
    (htime : ∀ t ∈ transactions, t ≠ newest → t.time < newest.time)
    (hrun : ∀ t, t ∈ run ↔ t ∈ transactions)
    (hopen : ∀ t ∈ transactions, Open env post t db)
    (hstart : Tallied env post voter transactions none db) :
    Converged env outputs post voter transactions run newest db ↔
      ((castVote env newest).isSome →
        ∃ before after, run = before ++ newest :: after ∧ ∀ t ∈ after, (castVote env t).isSome) ∧
      (castVote env newest = none → ∀ t ∈ run.getLast?, castVote env t = none) := by
  have htallied (before : List Transaction) (hbefore : before <+: run) :=
    (processAll_tallied outputs hon hsame
      (fun t ht => (hrun t).mp (hbefore.subset ht)) hopen hstart).2
  have hend := htallied run List.prefix_rfl
  have hconverged : Converged env outputs post voter transactions run newest db ↔
      tally (·.1.blockTime) (run.map (castVote env)) = castVote env newest := by
    constructor
    · rintro ⟨-, hvote, hmention⟩
      exact register_ext (hend.votes.symm.trans hvote) (hend.mentions.symm.trans hmention)
    · intro htally
      refine ⟨fun before hbefore => ?_, ?_, ?_⟩
      · rw [(htallied before hbefore).votes]
        exact Option.length_toList_le
      · rw [hend.votes, htally]
      · rw [hend.mentions, htally]
  rw [hconverged]
  cases hcast : castVote env newest with
  | none =>
    rw [tally_eq_none_iff, List.getLast?_map]
    simp
  | some p =>
    obtain ⟨-, -, -, htimep, hsigp⟩ := castVote_mention hcast
    have hmax (a : Vote × Mention) (ha : some a ∈ run.map (castVote env)) (hne : a ≠ p) :
        a.1.blockTime < p.1.blockTime := by
      obtain ⟨t, ht, hta⟩ := List.mem_map.mp ha
      obtain ⟨-, -, -, htimea, -⟩ := castVote_mention hta
      rw [htimea, htimep]
      refine htime t ((hrun t).mp ht) ?_
      rintro rfl
      exact hne (Option.some.inj (hta.symm.trans hcast))
    rw [tally_eq_some_iff hmax]
    simp only [Option.isSome_some, forall_const, reduceCtorEq, false_implies, and_true]
    constructor
    · rintro ⟨before, after, heq, hafter⟩
      obtain ⟨before, rest, rfl, rfl, hrest⟩ := List.map_eq_append_iff.mp heq
      obtain ⟨t, after, rfl, ht, rfl⟩ := List.map_eq_cons_iff.mp hrest
      obtain ⟨-, -, -, -, hsigt⟩ := castVote_mention ht
      obtain rfl := hsame newest hnewest t ((hrun t).mp (by simp)) (by rw [hsigt, hsigp])
      refine ⟨before, after, rfl, fun u hu => ?_⟩
      rw [Option.isSome_iff_ne_none]
      exact fun hnone => hafter (List.mem_map.mpr ⟨u, hu, hnone⟩)
    · rintro ⟨before, after, rfl, hafter⟩
      refine ⟨before.map (castVote env), after.map (castVote env), by simp [hcast], fun hnone => ?_⟩
      obtain ⟨u, hu, hnone⟩ := List.mem_map.mp hnone
      simpa [hnone] using hafter u hu

/-! ## A vote that comes back -/

def sampleAuthor : Bytes := 2 :: List.replicate 32 0x22

def sampleVoter : Bytes := 2 :: List.replicate 32 0x11

def sampleState : Db :=
  { Db.empty with contents := [⟨[9], 1, sampleAuthor, [], "4oGg".toList, .post, none, none⟩] }

def upvote : Transaction :=
  sample 1 5 ["vote".toList, sampleKey '2' '1', sampleSignature 'b', "09".toList, "upvote".toList,
    sampleKey '2' '2']

def unvote : Transaction :=
  sample 2 6 ["vote".toList, sampleKey '2' '1', sampleSignature 'c', "09".toList, "unvote".toList,
    sampleKey '2' '2']

theorem upvote_onPost : OnPost sampleEnv [9] sampleVoter upvote :=
  ⟨⟨sampleKey '2' '1', sampleSignature 'b', "09".toList, "upvote".toList, sampleKey '2' '2'⟩,
    sampleVoter, ⟨by decide +kernel, _, rfl, by decide +kernel, by decide +kernel⟩, rfl,
    by decide +kernel, fun _ => by decide +kernel⟩

theorem unvote_onPost : OnPost sampleEnv [9] sampleVoter unvote :=
  ⟨⟨sampleKey '2' '1', sampleSignature 'c', "09".toList, "unvote".toList, sampleKey '2' '2'⟩,
    sampleVoter, ⟨by decide +kernel, _, rfl, by decide +kernel, by decide +kernel⟩, rfl,
    by decide +kernel, fun _ => by decide +kernel⟩

theorem votes_onPost (t : Transaction) (h : t ∈ [upvote, unvote]) :
    OnPost sampleEnv [9] sampleVoter t := by
  rcases List.mem_cons.mp h with rfl | h
  · exact upvote_onPost
  · obtain rfl := List.mem_singleton.mp h
    exact unvote_onPost

theorem votes_open (t : Transaction) : Open sampleEnv [9] t sampleState :=
  ⟨rfl, fun _ _ => rfl, fun _ _ => owned_of_unused rfl⟩

theorem votes_start : Tallied sampleEnv [9] sampleVoter [upvote, unvote] none sampleState :=
  ⟨rfl, rfl, fun _ h => absurd h List.not_mem_nil, nofun⟩

theorem votes_differ : ∀ t ∈ [upvote, unvote], (∀ u ∈ [upvote, unvote],
    u.signature sampleEnv = t.signature sampleEnv → u = t) ∧ (t ≠ unvote → t.time < unvote.time) := by
  decide +kernel

/-- An upvote, its unvote, and the upvote again: the newest action is the unvote, and the vote is
there. -/
theorem unvoted_stands : (∀ t ∈ [upvote, unvote], OnPost sampleEnv [9] sampleVoter t ∧
      Open sampleEnv [9] t sampleState) ∧ upvote.time < unvote.time ∧
    Tallied sampleEnv [9] sampleVoter [upvote, unvote] none sampleState ∧
    ¬ Converged sampleEnv noOutputs [9] sampleVoter [upvote, unvote] [upvote, unvote, upvote] unvote
      sampleState :=
  ⟨fun t h => ⟨votes_onPost t h, votes_open t⟩, by decide, votes_start,
    fun h => absurd h.vote (by decide +kernel)⟩

theorem unvote_wins : Converged sampleEnv noOutputs [9] sampleVoter [upvote, unvote]
    [unvote, upvote, unvote] unvote sampleState := by
  refine (votes_converge_iff noOutputs [upvote, unvote] [unvote, upvote, unvote] unvote sampleState
    votes_onPost (fun t h => (votes_differ t h).1) (by simp) (fun t h => (votes_differ t h).2)
    (fun t => by simp; tauto) (fun t _ => votes_open t) votes_start).mpr ⟨?_, ?_⟩
  · intro h
    exact absurd h (by decide +kernel)
  · decide +kernel

end KaChatIndexer.KaVotes

import KaChatIndexer.KaReposts
import KaChatIndexer.NewestRow
import Mathlib.Data.Prod.Lex
import Mathlib.Data.List.Lex

/-!
# Polls and their votes

A vote is stored only while its poll is, and every vote is kept; which one counts is settled when the
poll is read, for each encoding of a key on its own. So the tallies are right exactly when of each
person's votes the newest that came after the poll picks what their newest picks, and nobody votes or
asks under another encoding of their key.
-/
namespace KaChatIndexer.KaPolls
open ByteStrings KaText KaActions KaStore KaHandlers KaSample KaStatements Interleaving
open Interleaving.Prog KaReposts NewestRow

variable {env : Env} {outputs : Bytes → Option (Option (List TxOutput))}

/-! ## Reading a poll -/

structure PollData where
  options : List Text
  counts : List ℕ
  total : ℕ
  closesAt : ℤ
  myVote : Option ℤ
  deriving DecidableEq

/-- `ORDER BY block_time DESC, transaction_id DESC`. -/
def voteRank (v : PollVote) : ℤ ×ₗ List ℕ :=
  toLex (v.blockTime, v.transactionId.map UInt8.toNat)

def votesOn (poll : Bytes) (db : Db) : List PollVote := db.pollVotes.filter (·.pollId = poll)

/-- What a page shows of a poll: the current vote of each key counts. -/
def enrichPolls (id requester : Bytes) (db : Db) : Option PollData :=
  (db.polls.find? (·.postId = id)).map fun poll =>
    let options := poll.options.splitOn ','
    let current := newestPerKey voteRank (·.voterPubkey) (votesOn id db)
    let counts := (List.range options.length).map fun i : ℕ =>
      current.countP (·.optionIndex = (i : ℤ))
    { options, counts, total := counts.sum, closesAt := poll.closesAt
      myVote := if requester = [] then none else
        (newest voteRank ((votesOn id db).filter (·.voterPubkey = requester))).map (·.optionIndex) }

/-! ## Votes of people -/

/-- `02+x` and `03+x` are the same person. -/
def person (v : PollVote) : Bytes := last32 v.voterPubkey

def people (rows : List PollVote) : Finset Bytes := (rows.map person).toFinset

/-- What the newest vote of a person picks. -/
def choice (rows : List PollVote) (x : Bytes) : Option ℤ :=
  (newest voteRank (rows.filter fun v => person v = x)).map (·.optionIndex)

/-- What a page has to show of a poll with these votes to those who ask under these keys. -/
def Served (poll : Poll) (rows : List PollVote) (asking : Bytes → Prop) (db : Db) : Prop :=
  ∀ key, asking key → ∃ data, enrichPolls poll.postId key db = some data ∧
    data.options = poll.options.splitOn ',' ∧
    data.counts = (List.range data.options.length).map (fun i : ℕ =>
      ((people rows).filter fun x => choice rows x = some (i : ℤ)).card) ∧
    data.total = (people rows).card ∧ data.myVote = choice rows (last32 key)

/-- Of these votes those that count are stored, and nobody votes or asks under two encodings. -/
structure Faithful (rows counted : List PollVote) (asking : Bytes → Prop) : Prop where
  oneForm : ∀ v ∈ rows, ∀ w ∈ rows, person v = person w → v.voterPubkey = w.voterPubkey
  latest : ∀ v ∈ rows, choice counted (person v) = choice rows (person v)
  asked : ∀ key, asking key → (∃ v ∈ rows, person v = last32 key) → ∃ v ∈ rows, v.voterPubkey = key

/-- The encodings that some votes are under. -/
def keysOf (rows : List PollVote) : Finset Bytes := (rows.map (·.voterPubkey)).toFinset

/-- What the newest vote under an encoding picks. -/
def keyChoice (rows : List PollVote) (key : Bytes) : Option ℤ :=
  (newest voteRank (rows.filter fun v => v.voterPubkey = key)).map (·.optionIndex)

theorem keyChoice_eq_none {rows : List PollVote} {key : Bytes} :
    keyChoice rows key = none ↔ ∀ v ∈ rows, v.voterPubkey ≠ key := by
  rw [keyChoice, Option.map_eq_none_iff, newest_eq_none, List.filter_eq_nil_iff]
  simp

theorem choice_eq_none {rows : List PollVote} {x : Bytes} :
    choice rows x = none ↔ ∀ v ∈ rows, person v ≠ x := by
  rw [choice, Option.map_eq_none_iff, newest_eq_none, List.filter_eq_nil_iff]
  simp

/-- Under one encoding a person's votes are a key's. -/
theorem choice_eq_keyChoice {rows : List PollVote} {key : Bytes}
    (h : ∀ v ∈ rows, person v = last32 key → v.voterPubkey = key) :
    choice rows (last32 key) = keyChoice rows key := by
  have hfilter : (rows.filter fun v => person v = last32 key) =
      rows.filter fun v => v.voterPubkey = key := by
    refine List.filter_congr fun v hv => ?_
    rw [decide_eq_decide]
    exact ⟨h v hv, fun heq => congrArg last32 heq⟩
  rw [choice, hfilter, keyChoice]

/-- The votes counted for an option are its keys. -/
theorem counts_keys {kept : List PollVote} (hranked : Ranked voteRank kept) (i : ℤ) :
    (newestPerKey voteRank (·.voterPubkey) kept).countP (·.optionIndex = i) =
      ((keysOf kept).filter fun key => keyChoice kept key = some i).card := by
  rw [countP_newestPerKey hranked]
  congr 1
  refine Finset.filter_congr fun key _ => ?_
  unfold keyChoice
  cases newest voteRank (kept.filter fun v => v.voterPubkey = key) <;> simp

/-- Once every chosen option is counted, everyone is. -/
theorem sum_counts {s : Finset Bytes} {f : Bytes → Option ℤ} (n : ℕ) :
    ((List.range n).map fun i : ℕ => (s.filter fun x => f x = some (i : ℤ)).card).sum =
      (s.filter fun x => ∃ i : ℕ, i < n ∧ f x = some (i : ℤ)).card := by
  induction n with
  | zero => simp
  | succ n ih =>
    rw [List.range_succ, List.map_append, List.sum_append, ih, List.map_singleton,
      List.sum_singleton, ← Finset.card_union_of_disjoint]
    · congr 1
      ext x
      simp only [Finset.mem_union, Finset.mem_filter, ← and_or_left]
      refine and_congr_right fun _ => ⟨?_, ?_⟩
      · rintro (⟨i, hi, hf⟩ | hf)
        · exact ⟨i, by omega, hf⟩
        · exact ⟨n, by omega, hf⟩
      · rintro ⟨i, hi, hf⟩
        rcases Nat.lt_succ_iff_lt_or_eq.mp hi with hlt | rfl
        · exact .inl ⟨i, hlt, hf⟩
        · exact .inr hf
    · refine Finset.disjoint_left.mpr fun x hx hx' => ?_
      obtain ⟨-, i, hi, hf⟩ := Finset.mem_filter.mp hx
      have heq := Option.some.inj (hf.symm.trans (Finset.mem_filter.mp hx').2)
      omega

theorem mem_keysOf {rows : List PollVote} {key : Bytes} :
    key ∈ keysOf rows ↔ ∃ v ∈ rows, v.voterPubkey = key := by simp [keysOf]

theorem mem_people {rows : List PollVote} {x : Bytes} :
    x ∈ people rows ↔ ∃ v ∈ rows, person v = x := by simp [people]

theorem keyChoice_ne_none {rows : List PollVote} {key : Bytes} :
    keyChoice rows key ≠ none ↔ key ∈ keysOf rows := by
  rw [Ne, keyChoice_eq_none, mem_keysOf]
  push Not
  rfl

theorem choice_ne_none {rows : List PollVote} {x : Bytes} :
    choice rows x ≠ none ↔ x ∈ people rows := by
  rw [Ne, choice_eq_none, mem_people]
  push Not
  rfl

/-- Every vote is for one of the options. -/
def InRange (n : ℕ) (rows : List PollVote) : Prop :=
  ∀ v ∈ rows, ∃ i : ℕ, i < n ∧ v.optionIndex = (i : ℤ)

theorem keyChoice_inRange {n : ℕ} {rows : List PollVote} {key : Bytes} (h : InRange n rows)
    (hkey : key ∈ keysOf rows) : ∃ i : ℕ, i < n ∧ keyChoice rows key = some (i : ℤ) := by
  obtain ⟨j, hj⟩ := Option.ne_none_iff_exists'.mp (keyChoice_ne_none.mpr hkey)
  obtain ⟨v, hv, rfl⟩ := Option.map_eq_some_iff.mp hj
  obtain ⟨i, hi, heq⟩ := h v (List.mem_filter.mp (newest_mem hv)).1
  exact ⟨i, hi, by rw [hj, heq]⟩

/-- A page shows the counts of keys. -/
theorem enrich_eq {poll : Poll} {db : Db}
    (hstored : db.polls.find? (·.postId = poll.postId) = some poll)
    (hranked : Ranked voteRank (votesOn poll.postId db))
    (hrange : InRange (poll.options.splitOn ',').length (votesOn poll.postId db))
    (hkeys : ∀ v ∈ votesOn poll.postId db, v.voterPubkey ≠ []) (key : Bytes) :
    enrichPolls poll.postId key db = some
      { options := poll.options.splitOn ','
        counts := (List.range (poll.options.splitOn ',').length).map fun i : ℕ =>
          ((keysOf (votesOn poll.postId db)).filter fun k =>
            keyChoice (votesOn poll.postId db) k = some (i : ℤ)).card
        total := (keysOf (votesOn poll.postId db)).card
        closesAt := poll.closesAt
        myVote := keyChoice (votesOn poll.postId db) key } := by
  have hcounts (i : ℕ) := counts_keys hranked (i : ℤ)
  have htotal := sum_counts (s := keysOf (votesOn poll.postId db))
    (f := keyChoice (votesOn poll.postId db)) (poll.options.splitOn ',').length
  rw [Finset.filter_true_of_mem fun k hk => keyChoice_inRange hrange hk] at htotal
  have hmine : (if key = [] then none else keyChoice (votesOn poll.postId db) key) =
      keyChoice (votesOn poll.postId db) key := by
    split
    · next hempty =>
      subst hempty
      exact (keyChoice_eq_none.mpr hkeys).symm
    · rfl
  unfold enrichPolls
  rw [hstored, Option.map_some]
  simp only [hcounts]
  rw [htotal, ← hmine]
  rfl

/-! ## Served exactly when faithful -/

section
variable {rows kept : List PollVote} {asking : Bytes → Prop} {n : ℕ}

theorem people_eq_image (rows : List PollVote) : people rows = (keysOf rows).image last32 := by
  ext x
  simp [mem_people, keysOf, person]

/-- One encoding each. -/
theorem injOn_of_oneForm
    (h : ∀ v ∈ rows, ∀ w ∈ rows, person v = person w → v.voterPubkey = w.voterPubkey) :
    Set.InjOn last32 (keysOf rows : Set Bytes) := by
  intro a ha b hb heq
  obtain ⟨v, hv, rfl⟩ := mem_keysOf.mp ha
  obtain ⟨w, hw, rfl⟩ := mem_keysOf.mp hb
  exact h v hv w hw heq

/-- Where each encoding's newest kept vote picks what its person's newest vote picks, the counts of
keys are the counts of people. -/
theorem counts_people (hone : Set.InjOn last32 (keysOf rows : Set Bytes))
    (hkeys : keysOf kept = keysOf rows)
    (hchoice : ∀ key ∈ keysOf rows, keyChoice kept key = choice rows (last32 key)) (o : Option ℤ) :
    ((keysOf kept).filter fun k => keyChoice kept k = o).card =
      ((people rows).filter fun x => choice rows x = o).card := by
  rw [hkeys, people_eq_image, Finset.filter_image, Finset.card_image_of_injOn]
  · congr 1
    refine Finset.filter_congr fun key hkey => ?_
    rw [hchoice key hkey]
  · exact hone.mono fun key hkey => (Finset.mem_filter.mp hkey).1

/-- The kept votes serve everyone who asks. -/
def Matches (n : ℕ) (rows kept : List PollVote) (asking : Bytes → Prop) : Prop :=
  ∀ key, asking key → (∀ i < n, ((keysOf kept).filter fun k => keyChoice kept k = some (i : ℤ)).card =
      ((people rows).filter fun x => choice rows x = some (i : ℤ)).card) ∧
    (keysOf kept).card = (people rows).card ∧ keyChoice kept key = choice rows (last32 key)

theorem matches_iff (hsub : ∀ v ∈ kept, v ∈ rows) (hasking : ∀ v ∈ rows, asking v.voterPubkey) :
    Matches n rows kept asking ↔ Faithful rows kept asking := by
  have hkeysSub : keysOf kept ⊆ keysOf rows := by
    intro key hkey
    obtain ⟨v, hv, rfl⟩ := mem_keysOf.mp hkey
    exact mem_keysOf.mpr ⟨v, hsub v hv, rfl⟩
  have hperson {v : PollVote} (hv : v ∈ rows) : choice rows (last32 v.voterPubkey) ≠ none :=
    choice_ne_none.mpr (mem_people.mpr ⟨v, hv, rfl⟩)
  constructor
  · intro h
    have hchoice (v : PollVote) (hv : v ∈ rows) :
        keyChoice kept v.voterPubkey = choice rows (last32 v.voterPubkey) :=
      (h _ (hasking v hv)).2.2
    have hkeys : keysOf kept = keysOf rows := by
      refine hkeysSub.antisymm fun key hkey => ?_
      obtain ⟨v, hv, rfl⟩ := mem_keysOf.mp hkey
      exact keyChoice_ne_none.mp (hchoice v hv ▸ hperson hv)
    have hone (v : PollVote) (hv : v ∈ rows) (w : PollVote) (hw : w ∈ rows)
        (heq : person v = person w) : v.voterPubkey = w.voterPubkey := by
      have hcard := (h _ (hasking v hv)).2.1
      rw [hkeys, people_eq_image] at hcard
      exact Finset.card_image_iff.mp hcard.symm (mem_keysOf.mpr ⟨v, hv, rfl⟩)
        (mem_keysOf.mpr ⟨w, hw, rfl⟩) heq
    refine ⟨hone, fun v hv => ?_, fun key hkey => ?_⟩
    · rw [person, choice_eq_keyChoice fun w hw heq => hone w (hsub w hw) v hv heq, hchoice v hv]
    · rintro ⟨v, hv, heq⟩
      have hmine := (h key hkey).2.2
      refine mem_keysOf.mp (hkeys ▸ keyChoice_ne_none.mp ?_)
      rw [hmine, ← heq]
      exact hperson hv
  · rintro ⟨hone, hlatest, hasked⟩ key hkey
    have hchoice (k : Bytes) (hk : k ∈ keysOf rows) :
        keyChoice kept k = choice rows (last32 k) := by
      obtain ⟨v, hv, rfl⟩ := mem_keysOf.mp hk
      exact (choice_eq_keyChoice fun w hw heq => hone w (hsub w hw) v hv heq).symm.trans
        (hlatest v hv)
    have hkeys : keysOf kept = keysOf rows := by
      refine hkeysSub.antisymm fun k hk => ?_
      obtain ⟨v, hv, rfl⟩ := mem_keysOf.mp hk
      exact keyChoice_ne_none.mp (hchoice _ hk ▸ hperson hv)
    have hinj := injOn_of_oneForm hone
    refine ⟨fun i _ => counts_people hinj hkeys hchoice _, ?_, ?_⟩
    · rw [hkeys, people_eq_image, Finset.card_image_of_injOn hinj]
    · by_cases hvoted : ∃ v ∈ rows, person v = last32 key
      · obtain ⟨v, hv, rfl⟩ := hasked key hkey hvoted
        exact hchoice _ (mem_keysOf.mpr ⟨v, hv, rfl⟩)
      · push Not at hvoted
        rw [choice_eq_none.mpr hvoted, keyChoice_eq_none]
        exact fun v hv heq => hvoted v (hsub v hv) (congrArg last32 heq)

end

/-- What is served is right exactly when the votes that are stored count so. -/
theorem served_iff {poll : Poll} {rows counted : List PollVote} {asking : Bytes → Prop} {db : Db}
    (hstored : db.polls.find? (·.postId = poll.postId) = some poll)
    (hkept : ∀ v, v ∈ votesOn poll.postId db ↔ v ∈ counted) (hranked : Ranked voteRank rows)
    (hsub : ∀ v ∈ counted, v ∈ rows) (hrange : InRange (poll.options.splitOn ',').length rows)
    (hkeys : ∀ v ∈ rows, v.voterPubkey ≠ []) (hasking : ∀ v ∈ rows, asking v.voterPubkey) :
    Served poll rows asking db ↔ Faithful rows counted asking := by
  have hkept' (v : PollVote) (hv : v ∈ votesOn poll.postId db) : v ∈ rows := hsub v ((hkept v).mp hv)
  have hranked' : Ranked voteRank (votesOn poll.postId db) :=
    fun v hv w hw => hranked v (hkept' v hv) w (hkept' w hw)
  have henrich := enrich_eq hstored hranked' (fun v hv => hrange v (hkept' v hv))
    fun v hv => hkeys v (hkept' v hv)
  have hchoice (x : Bytes) : choice (votesOn poll.postId db) x = choice counted x := by
    unfold choice
    rw [newest_congr (hranked'.filter _) fun v => ?_]
    simp [hkept]
  have hmatches : Served poll rows asking db ↔
      Matches (poll.options.splitOn ',').length rows (votesOn poll.postId db) asking := by
    refine forall_congr' fun key => forall_congr' fun _ => ?_
    rw [henrich]
    simp only [Option.some.injEq, exists_eq_left', true_and, List.map_inj_left, List.mem_range]
  rw [hmatches, matches_iff hkept' hasking]
  constructor
  · rintro ⟨hone, hlatest, hasked⟩
    exact ⟨hone, fun v hv => (hchoice _).symm.trans (hlatest v hv), hasked⟩
  · rintro ⟨hone, hlatest, hasked⟩
    exact ⟨hone, fun v hv => (hchoice _).trans (hlatest v hv), hasked⟩

/-! ## Processing a poll and its votes -/

/-- The row of the vote that a transaction casts on a poll. -/
def pollVoteRow (env : Env) (transaction : Transaction) : Option PollVote :=
  match transaction.action env with
  | some (.pollVote k) =>
    (hexDecode k.pollId).bind fun poll => (hexDecode k.senderPubkey).bind fun voter =>
      (hexDecode k.senderSignature).map fun signature =>
        ⟨transaction.transactionId, poll, voter, k.optionIndex, transaction.time, signature⟩
  | _ => none

/-- A signed poll, with the rows it makes. -/
def Asks (env : Env) (row : Content) (poll : Poll) (transaction : Transaction) : Prop :=
  ∃ k, Acts env transaction (.poll k) row.senderPubkey ∧
    (validateKachatMessage k.base64EncodedQuestion).isOk = true ∧
    (pollOptions k.optionsB64Csv).isSome = true ∧
    transaction.time < k.closesAtMs ∧ k.closesAtMs ≤ transaction.time + sevenDaysMs ∧
    contentRow transaction k.senderPubkey k.senderSignature k.base64EncodedQuestion .poll none =
      some row ∧
    poll = ⟨row.transactionId, k.optionsB64Csv, k.closesAtMs, row.blockTime⟩

/-- A signed vote on the poll, for one of its options and in time. -/
def Answers (env : Env) (poll : Poll) (transaction : Transaction) : Prop :=
  ∃ k voter, Acts env transaction (.pollVote k) voter ∧ hexDecode k.pollId = some poll.postId ∧
    0 ≤ k.optionIndex ∧ k.optionIndex < (poll.options.splitOn ',').length ∧
    transaction.time < poll.closesAt

/-- The content would conflict with one that is stored. -/
def conflicts (row : Content) (db : Db) : Bool :=
  db.contents.any fun c => c.senderSignature = row.senderSignature ∨
    c.transactionId = row.transactionId

theorem pollMentions_alone (row : Content) (keys : List Text) (db : Db) :
    { ((insertPollMentions row keys).alone db).2 with mentions := [] } =
      ({ db with mentions := [] } : Db) := by
  have hframe : (insertPollMentions row keys).Frame (fun _ => True)
      fun db : Db => { db with mentions := [] } := by
    induction keys with
    | nil => trivial
    | cons key keys ih =>
      unfold insertPollMentions
      split
      · exact ih
      · exact .execute_bind trivial (fun _ => rfl) ih
  exact hframe.alone db

/-- A poll is stored when its content is new. -/
theorem storePoll_alone (row : Content) (poll : Poll) (mentioned : List Text) (db : Db) :
    (conflicts row db = true → ((storePoll row poll mentioned).alone db).2 = db) ∧
      (conflicts row db = false →
        { ((storePoll row poll mentioned).alone db).2 with mentions := [] } =
          ({ Db.insertPoll poll db with contents := db.contents ++ [row], mentions := [] } : Db)) := by
  have hinsert : db.insertContent row [] = if conflicts row db = true then (false, db)
      else (true, { db with contents := db.contents ++ [row], mentions := db.mentions ++ [] }) := rfl
  unfold storePoll
  constructor
  · intro h
    simp [hinsert, h]
  · intro h
    have hmentions := pollMentions_alone row mentioned
      (Db.insertPoll poll { db with
        contents := db.contents ++ [row], mentions := db.mentions ++ [] })
    simp only [stmt_bind, hinsert, h, Bool.false_eq_true, if_false, alone_step, Bool.not_true,
      execute_bind]
    rw [hmentions]
    unfold Db.insertPoll
    dsimp only
    split <;> rfl

theorem storePoll_frame (row : Content) (poll : Poll) (mentioned : List Text) (db : Db) :
    ((storePoll row poll mentioned).alone db).2.deleteTombstones = db.deleteTombstones ∧
      ((storePoll row poll mentioned).alone db).2.kapostsDenylist = db.kapostsDenylist ∧
      ((storePoll row poll mentioned).alone db).2.usedSignatures = db.usedSignatures ∧
      ((storePoll row poll mentioned).alone db).2.pollVotes = db.pollVotes := by
  obtain ⟨hold, hnew⟩ := storePoll_alone row poll mentioned db
  cases hconflict : conflicts row db with
  | true =>
    rw [hold hconflict]
    exact ⟨rfl, rfl, rfl, rfl⟩
  | false =>
    have hafter := hnew hconflict
    have htables : (Db.insertPoll poll db).deleteTombstones = db.deleteTombstones ∧
        (Db.insertPoll poll db).kapostsDenylist = db.kapostsDenylist ∧
        (Db.insertPoll poll db).usedSignatures = db.usedSignatures ∧
        (Db.insertPoll poll db).pollVotes = db.pollVotes := by
      unfold Db.insertPoll
      split <;> exact ⟨rfl, rfl, rfl, rfl⟩
    have htombstones := congrArg Db.deleteTombstones hafter
    have hdenylist := congrArg Db.kapostsDenylist hafter
    have hused := congrArg Db.usedSignatures hafter
    have hvotes := congrArg Db.pollVotes hafter
    exact ⟨htombstones.trans htables.1, hdenylist.trans htables.2.1, hused.trans htables.2.2.1,
      hvotes.trans htables.2.2.2⟩

/-- A vote is stored while its poll is. -/
theorem storePollVote_alone {poll : Poll} {row : PollVote} {db : Db} (hpoll : row.pollId = poll.postId)
    (hlow : 0 ≤ row.optionIndex) (hhigh : row.optionIndex < (poll.options.splitOn ',').length)
    (htime : row.blockTime < poll.closesAt) :
    (db.polls.find? (·.postId = poll.postId) = some poll →
      ((storePollVote row).alone db).2 = Db.insertPollVote row db) ∧
    (db.polls.find? (·.postId = poll.postId) = none → ((storePollVote row).alone db).2 = db) := by
  unfold storePollVote
  rw [hpoll]
  constructor
  · intro h
    simp [h, not_lt.mpr hlow, not_le.mpr hhigh, not_le.mpr htime, execute]
  · intro h
    simp [h]

section
variable {asker transaction : Transaction} {row : Content} {poll : Poll} {db : Db}

theorem Asks.facts (h : Asks env row poll transaction) :
    row.transactionId = transaction.transactionId ∧ poll.postId = row.transactionId ∧
      transaction.signature env = some row.senderSignature ∧
      pollVoteRow env transaction = none := by
  obtain ⟨k, ⟨haction, -⟩, -, -, -, -, hrow, rfl⟩ := h
  obtain ⟨sender, -, hrow⟩ := Option.bind_eq_some_iff.mp hrow
  obtain ⟨signature, hsig, rfl⟩ := Option.map_eq_some_iff.mp hrow
  refine ⟨rfl, rfl, ?_, ?_⟩
  · rw [Transaction.signature, haction]
    exact hsig
  · rw [pollVoteRow, haction]

theorem process_poll (outputs : Bytes → Option (Option (List TxOutput)))
    (h : Asks env row poll transaction) (hadmitted : Admitted env transaction db)
    (hundeleted : db.hasTombstone transaction.transactionId row.senderPubkey = false) :
    ∃ mentioned, ((processKTransaction env outputs transaction).alone db).2 =
      ((storePoll row poll mentioned).alone
        (db.insertUsed row.senderSignature transaction.transactionId).2).2 := by
  have hsigned := h.facts.2.2.1
  obtain ⟨k, ⟨haction, text, htext, hverify, hsender⟩, hvalid, hoptions, hlow, hhigh, hrow, rfl⟩ := h
  obtain rfl := Option.some.inj htext
  have hallowed := hadmitted.allowed k.senderPubkey (by rw [haction]; rfl)
  have howned := hadmitted.owned _ hsigned
  have hverify' : verifyKaspaSignature env (KAction.poll k).signingString k.senderSignature
      k.senderPubkey = true := hverify
  have hsig' : hexDecode k.senderSignature = some row.senderSignature := by
    rw [Transaction.signature, haction] at hsigned
    exact hsigned
  have hoptions' : (pollOptions k.optionsB64Csv).isNone = false := by
    rw [← Option.not_isSome, hoptions]
    rfl
  refine ⟨if k.isKchat then k.mentionedPubkeys else [], ?_⟩
  have hsave : ((processKPollInDatabase env transaction k).alone db).2 =
      ((storePoll row ⟨row.transactionId, k.optionsB64Csv, k.closesAtMs, row.blockTime⟩
        (if k.isKchat then k.mentionedPubkeys else [])).alone
          (db.insertUsed row.senderSignature transaction.transactionId).2).2 := by
    unfold processKPollInDatabase
    rw [checked_alone hverify' hsig' howned]
    simp [hvalid, hoptions', not_le.mpr hlow, not_lt.mpr hhigh, hrow]
  have hafter : ((processKPollInDatabase env transaction k).alone db).2.hasTombstone
      transaction.transactionId row.senderPubkey = false := by
    rw [hsave]
    unfold Db.hasTombstone
    rw [(storePoll_frame ..).1]
    exact (congrArg (fun d : Db => d.hasTombstone transaction.transactionId row.senderPubkey)
      (tables_insertUsed row.senderSignature transaction.transactionId db)).trans hundeleted
  rw [process_alone outputs haction rfl hallowed, processAction,
    saved_alone hsender hundeleted hafter, hsave]

theorem Answers.facts (h : Answers env poll transaction) :
    ∃ v, pollVoteRow env transaction = some v ∧ v.pollId = poll.postId ∧ 0 ≤ v.optionIndex ∧
      v.optionIndex < (poll.options.splitOn ',').length ∧ v.blockTime < poll.closesAt ∧
      v.transactionId = transaction.transactionId ∧ v.voterPubkey ≠ [] ∧
      transaction.signature env = some v.senderSignature := by
  obtain ⟨k, voter, ⟨haction, text, htext, hverify, hvoter⟩, hpoll, hlow, hhigh, htime⟩ := h
  obtain rfl := Option.some.inj htext
  obtain ⟨signature, -, hsig, -⟩ := verify_decodes hverify
  have hsig' : hexDecode k.senderSignature = some signature := hsig
  refine ⟨⟨transaction.transactionId, poll.postId, voter, k.optionIndex, transaction.time,
    signature⟩, ?_, rfl, hlow, hhigh, htime, rfl, ?_, ?_⟩
  · simp [pollVoteRow, haction, hpoll, hvoter, hsig']
  · rintro rfl
    unfold verifyKaspaSignature at hverify
    simp [hvoter, xonly] at hverify
  · rw [Transaction.signature, haction]
    exact hsig

theorem process_answer (outputs : Bytes → Option (Option (List TxOutput))) {v : PollVote}
    (h : Answers env poll transaction) (hv : pollVoteRow env transaction = some v)
    (hadmitted : Admitted env transaction db) :
    ((processKTransaction env outputs transaction).alone db).2 =
      ((storePollVote v).alone (db.insertUsed v.senderSignature transaction.transactionId).2).2 := by
  obtain ⟨v', hv', -, -, -, -, -, -, hsigned⟩ := h.facts
  obtain rfl := Option.some.inj (hv'.symm.trans hv)
  obtain ⟨k, voter, ⟨haction, text, htext, hverify, hvoter⟩, hpoll, -⟩ := h
  obtain rfl := Option.some.inj htext
  have hallowed := hadmitted.allowed k.senderPubkey (by rw [haction]; rfl)
  have howned := hadmitted.owned _ hsigned
  have hverify' : verifyKaspaSignature env (KAction.pollVote k).signingString k.senderSignature
      k.senderPubkey = true := hverify
  have hsig' : hexDecode k.senderSignature = some v'.senderSignature := by
    rw [Transaction.signature, haction] at hsigned
    exact hsigned
  have hrow : (⟨transaction.transactionId, poll.postId, voter, k.optionIndex, transaction.time,
      v'.senderSignature⟩ : PollVote) = v' := by
    have heq : pollVoteRow env transaction = some ⟨transaction.transactionId, poll.postId, voter,
        k.optionIndex, transaction.time, v'.senderSignature⟩ := by
      simp [pollVoteRow, haction, hpoll, hvoter, hsig']
    exact Option.some.inj (heq.symm.trans hv)
  rw [process_alone outputs haction rfl hallowed, processAction, processKPollvoteInDatabase,
    checked_alone hverify' hsig' howned]
  simp [hpoll, hvoter, hsig', hrow]

end

/-! ## Runs -/

/-- The votes that come when the poll has come. -/
def counted (env : Env) (asker : Transaction) (run : List Transaction) : List PollVote :=
  (run.dropWhile fun t => t ≠ asker).filterMap (pollVoteRow env)

theorem dropWhile_isEmpty (asker : Transaction) (run : List Transaction) :
    (run.dropWhile fun t => t ≠ asker).isEmpty = decide (asker ∉ run) := by
  induction run with
  | nil => simp
  | cons t run ih =>
    by_cases ht : t = asker
    · simp [ht]
    · have hne : asker ≠ t := Ne.symm ht
      simpa [ht, hne] using ih

theorem dropWhile_nil {asker : Transaction} {run : List Transaction} (h : asker ∉ run) :
    (run.dropWhile fun t => t ≠ asker) = [] := by
  rw [← List.isEmpty_iff, dropWhile_isEmpty]
  exact decide_eq_true h

theorem counted_append {asker : Transaction} (hasker : pollVoteRow env asker = none)
    (run : List Transaction) (t : Transaction) :
    counted env asker (run ++ [t]) =
      if asker ∈ run then counted env asker run ++ (pollVoteRow env t).toList else [] := by
  unfold counted
  rw [List.dropWhile_append, dropWhile_isEmpty]
  by_cases hmem : asker ∈ run
  · rw [if_neg (by simpa using hmem), if_pos hmem, List.filterMap_append]
    congr 1
  · rw [if_pos (by simpa using hmem), if_neg hmem]
    by_cases ht : t = asker
    · simp [ht, hasker]
    · simp [ht]

/-- What the database holds of the poll and its votes after a run. -/
structure Polled (env : Env) (asker : Transaction) (row : Content) (poll : Poll)
    (votes run : List Transaction) (db : Db) : Prop where
  admitted : ∀ u ∈ asker :: votes, Admitted env u db
  undeleted : db.hasTombstone asker.transactionId row.senderPubkey = false
  posted : db.polls.find? (·.postId = poll.postId) = if asker ∈ run then some poll else none
  stored : conflicts row db = decide (asker ∈ run)
  kept : ∀ v, v ∈ votesOn poll.postId db ↔ v ∈ counted env asker run
  others : ∀ v ∈ db.pollVotes, v.pollId ≠ poll.postId → ∀ t ∈ votes,
    t.signature env ≠ some v.senderSignature

section
variable {asker : Transaction} {row : Content} {poll : Poll} {votes run : List Transaction} {db : Db}
  (hasks : Asks env row poll asker) (hanswers : ∀ t ∈ votes, Answers env poll t)
  (hsame : ∀ t ∈ asker :: votes, ∀ u ∈ asker :: votes, u.signature env = t.signature env → u = t)
include hsame

/-- The way stays open when a signature is recorded. -/
theorem polled_used {t : Transaction} {signature : Bytes} (ht : t ∈ asker :: votes)
    (hsig : t.signature env = some signature) (h : Polled env asker row poll votes run db) :
    Polled env asker row poll votes run (db.insertUsed signature t.transactionId).2 := by
  have htables := tables_insertUsed signature t.transactionId db
  have hpolls := congrArg Db.polls htables
  have hcontents := congrArg Db.contents htables
  have hvotes := congrArg Db.pollVotes htables
  have htombstones := congrArg Db.deleteTombstones htables
  refine ⟨fun u hu => admitted_after hsig (hsame t ht u hu) ?_ rfl (h.admitted u hu), ?_, ?_, ?_,
    fun v => ?_, fun v hv => h.others v (hvotes ▸ hv)⟩
  · have hequal := congrArg Db.kapostsDenylist htables
    exact hequal
  · exact (congrArg (fun l : List Deletion => l.any _) htombstones).trans h.undeleted
  · have hequal : (db.insertUsed signature t.transactionId).2.polls = db.polls := hpolls
    rw [hequal]
    exact h.posted
  · exact (congrArg (fun l : List Content => l.any _) hcontents).trans h.stored
  · rw [← h.kept]
    have hequal : votesOn poll.postId (db.insertUsed signature t.transactionId).2 =
      votesOn poll.postId db := congrArg (List.filter _) hvotes
    rw [hequal]

include hasks

omit hsame in
/-- The poll itself comes. -/
theorem polled_poll (mentioned : List Text) (h : Polled env asker row poll votes run db) :
    Polled env asker row poll votes (run ++ [asker])
      ((storePoll row poll mentioned).alone db).2 := by
  obtain ⟨hold, hnew⟩ := storePoll_alone row poll mentioned db
  obtain ⟨htombstones, hdenylist, hused, hvotes⟩ := storePoll_frame row poll mentioned db
  have hafter : conflicts row ((storePoll row poll mentioned).alone db).2 = true ∧
      ((storePoll row poll mentioned).alone db).2.polls.find? (·.postId = poll.postId) =
        some poll := by
    cases hconflict : conflicts row db with
    | true =>
      have hmem : asker ∈ run := of_decide_eq_true (h.stored.symm.trans hconflict)
      rw [hold hconflict, hconflict, h.posted, if_pos hmem]
      exact ⟨rfl, rfl⟩
    | false =>
      have hmem : asker ∉ run := of_decide_eq_false (h.stored.symm.trans hconflict)
      have heq := hnew hconflict
      have hcontents := congrArg Db.contents heq
      have hpolls := congrArg Db.polls heq
      have hnone := h.posted
      rw [if_neg hmem] at hnone
      have hfree : db.polls.any (·.postId = poll.postId) = false := by
        rw [List.any_eq_false]
        intro p hp hpid
        have := List.find?_eq_none.mp hnone p hp
        exact this hpid
      have hinsert : (Db.insertPoll poll db).polls = db.polls ++ [poll] := by
        unfold Db.insertPoll
        rw [hfree]
        rfl
      constructor
      · unfold conflicts
        rw [show ((storePoll row poll mentioned).alone db).2.contents = db.contents ++ [row] from
          hcontents]
        simp
      · rw [show ((storePoll row poll mentioned).alone db).2.polls = db.polls ++ [poll] from
          hpolls.trans hinsert, List.find?_append, hnone]
        simp
  have hadmitted (u : Transaction) (hu : u ∈ asker :: votes) :
      Admitted env u ((storePoll row poll mentioned).alone db).2 := by
    refine ⟨fun text htext => ?_, fun own hown first hfirst => ?_⟩
    · exact (congrArg (fun l => l.contains (toAsciiLowercase text)) hdenylist).trans
        ((h.admitted u hu).allowed text htext)
    · exact (h.admitted u hu).owned own hown first
        ((congrArg (·.lookup own) hused).symm.trans hfirst)
  refine ⟨hadmitted, ?_, ?_, ?_, fun v => ?_, fun v hv => h.others v (hvotes ▸ hv)⟩
  · exact (congrArg (fun l : List Deletion => l.any _) htombstones).trans h.undeleted
  · rw [hafter.2, if_pos (by simp)]
  · rw [hafter.1]
    simp
  · have hequal : votesOn poll.postId ((storePoll row poll mentioned).alone db).2 =
      votesOn poll.postId db := congrArg (List.filter _) hvotes
    rw [hequal, h.kept, counted_append hasks.facts.2.2.2]
    split
    · simp [hasks.facts.2.2.2]
    · next hmem =>
      unfold counted
      rw [dropWhile_nil hmem]
      simp

include hanswers

/-- A vote comes. -/
theorem polled_vote {t : Transaction} {v : PollVote} (ht : t ∈ votes)
    (hrun : ∀ u ∈ run, u ∈ asker :: votes) (hv : pollVoteRow env t = some v)
    (h : Polled env asker row poll votes run db) :
    Polled env asker row poll votes (run ++ [t]) ((storePollVote v).alone db).2 := by
  obtain ⟨v', hv', hpoll, hlow, hhigh, htime, -, -, hsig⟩ := (hanswers t ht).facts
  obtain rfl := Option.some.inj (hv'.symm.trans hv)
  have hne : asker ≠ t := by
    rintro rfl
    rw [hasks.facts.2.2.2] at hv
    cases hv
  have hmem : asker ∈ run ++ [t] ↔ asker ∈ run := by simp [hne]
  obtain ⟨hstore, hdrop⟩ := @storePollVote_alone poll v' db hpoll hlow hhigh htime
  by_cases hposted : asker ∈ run
  · have hfind := h.posted
    rw [if_pos hposted] at hfind
    rw [hstore hfind]
    have hrows (w : PollVote) (hw : w ∈ db.pollVotes)
        (hwsig : w.senderSignature = v'.senderSignature) : w = v' := by
      by_cases hwpoll : w.pollId = poll.postId
      · have hcounted := (h.kept w).mp (List.mem_filter.mpr ⟨hw, decide_eq_true hwpoll⟩)
        obtain ⟨u, hu, hwu⟩ := List.mem_filterMap.mp hcounted
        have hmemu := hrun u ((List.dropWhile_sublist _).subset hu)
        rcases List.mem_cons.mp hmemu with rfl | huvotes
        · rw [hasks.facts.2.2.2] at hwu
          cases hwu
        · obtain ⟨w', hw', -, -, -, -, -, -, hsigu⟩ := (hanswers u huvotes).facts
          obtain rfl := Option.some.inj (hw'.symm.trans hwu)
          obtain rfl := hsame t (List.mem_cons_of_mem _ ht) u hmemu (by rw [hsigu, hsig, hwsig])
          exact Option.some.inj (hwu.symm.trans hv)
      · exact absurd (by rw [hsig, hwsig]) (h.others w hw hwpoll t ht)
    have hmemVotes (w : PollVote) :
        w ∈ (Db.insertPollVote v' db).pollVotes ↔ w ∈ db.pollVotes ∨ w = v' := by
      unfold Db.insertPollVote
      split
      · next hany =>
        obtain ⟨x, hx, hxsig⟩ := List.any_eq_true.mp hany
        obtain rfl := hrows x hx (of_decide_eq_true hxsig)
        exact ⟨.inl, fun hw => hw.elim id fun heq => heq ▸ hx⟩
      · simp
    have hframe : (Db.insertPollVote v' db).polls = db.polls ∧
        (Db.insertPollVote v' db).contents = db.contents ∧
        (Db.insertPollVote v' db).deleteTombstones = db.deleteTombstones ∧
        (Db.insertPollVote v' db).kapostsDenylist = db.kapostsDenylist ∧
        (Db.insertPollVote v' db).usedSignatures = db.usedSignatures := by
      unfold Db.insertPollVote
      split <;> exact ⟨rfl, rfl, rfl, rfl, rfl⟩
    obtain ⟨hpolls, hcontents, htombstones, hdenylist, hused⟩ := hframe
    refine ⟨fun u hu => ⟨fun text htext => ?_, fun own hown first hfirst => ?_⟩, ?_, ?_, ?_,
      fun w => ?_, fun w hw hwpoll => ?_⟩
    · exact (congrArg (fun l => l.contains (toAsciiLowercase text)) hdenylist).trans
        ((h.admitted u hu).allowed text htext)
    · exact (h.admitted u hu).owned own hown first
        ((congrArg (·.lookup own) hused).symm.trans hfirst)
    · exact (congrArg (fun l : List Deletion => l.any _) htombstones).trans h.undeleted
    · rw [hpolls, h.posted]
      simp [hmem]
    · exact (congrArg (fun l : List Content => l.any _) hcontents).trans
        (h.stored.trans (by simp [hmem]))
    · rw [counted_append hasks.facts.2.2.2, if_pos hposted, hv, List.mem_append, ← h.kept]
      unfold votesOn
      rw [List.mem_filter, List.mem_filter, hmemVotes]
      simp only [Option.toList_some, List.mem_singleton, decide_eq_true_eq, or_and_right]
      exact or_congr_right ⟨fun hw => hw.1, fun hw => ⟨hw, hw ▸ hpoll⟩⟩
    · rcases (hmemVotes w).mp hw with hw | rfl
      · exact h.others w hw hwpoll
      · exact absurd hpoll hwpoll
  · have hnone := h.posted
    rw [if_neg hposted] at hnone
    rw [hdrop hnone]
    refine ⟨h.admitted, h.undeleted, ?_, ?_, fun w => ?_, h.others⟩
    · rw [h.posted]
      simp [hmem]
    · rw [h.stored]
      simp [hmem]
    · rw [h.kept, counted_append hasks.facts.2.2.2, if_neg hposted]
      unfold counted
      rw [dropWhile_nil hposted]
      rfl

/-- What a run leaves. -/
theorem polled_run (outputs : Bytes → Option (Option (List TxOutput)))
    (hrun : ∀ u ∈ run, u ∈ asker :: votes) (hstart : Polled env asker row poll votes [] db) :
    Polled env asker row poll votes run (processAll env outputs run db) := by
  induction run using List.reverseRecOn with
  | nil => exact hstart
  | append_singleton run t ih =>
    have hbefore (u : Transaction) (hu : u ∈ run) := hrun u (List.mem_append_left _ hu)
    have h := ih hbefore
    have ht := hrun t (by simp)
    rw [processAll, List.foldl_append, List.foldl_cons, List.foldl_nil, ← processAll]
    rcases List.mem_cons.mp ht with rfl | hvote
    · obtain ⟨mentioned, heq⟩ := process_poll outputs hasks (h.admitted t ht) h.undeleted
      rw [heq]
      exact polled_poll hasks mentioned (polled_used hsame ht hasks.facts.2.2.1 h)
    · obtain ⟨v, hv, -, -, -, -, -, -, hsig⟩ := (hanswers t hvote).facts
      rw [process_answer outputs (hanswers t hvote) hv (h.admitted t ht)]
      exact polled_vote hasks hanswers hsame hvote hbefore hv (polled_used hsame ht hsig h)

end

/-- A poll and the votes on it, processed one after another in any order and any of them again: what a
page shows of the poll to those who ask, every voter among them, is right exactly when of each
person's votes the newest that has come when the poll has picks what their newest picks, and nobody
votes or asks under another encoding of their key. -/
theorem polls_exact_iff (outputs : Bytes → Option (Option (List TxOutput))) {asker : Transaction}
    {row : Content} {poll : Poll} (votes run : List Transaction) (asking : Bytes → Prop) (db : Db)
    (hasks : Asks env row poll asker) (hanswers : ∀ t ∈ votes, Answers env poll t)
    (hid : ∀ t ∈ votes, ∀ u ∈ votes, u.transactionId = t.transactionId → u = t)
    (hsame : ∀ t ∈ asker :: votes, ∀ u ∈ asker :: votes, u.signature env = t.signature env → u = t)
    (hrun : ∀ t, t ∈ run ↔ t ∈ asker :: votes)
    (hstart : Polled env asker row poll votes [] db)
    (hasking : ∀ v ∈ votes.filterMap (pollVoteRow env), asking v.voterPubkey) :
    Served poll (votes.filterMap (pollVoteRow env)) asking (processAll env outputs run db) ↔
      Faithful (votes.filterMap (pollVoteRow env)) (counted env asker run) asking := by
  have hend := polled_run hasks hanswers hsame outputs (fun u hu => (hrun u).mp hu) hstart
  have hrows {v : PollVote} (hv : v ∈ votes.filterMap (pollVoteRow env)) :
      ∃ t ∈ votes, pollVoteRow env t = some v := List.mem_filterMap.mp hv
  refine served_iff ?_ hend.kept ?_ ?_ ?_ ?_ hasking
  · rw [hend.posted, if_pos ((hrun asker).mpr List.mem_cons_self)]
  · intro v hv w hw hrank
    obtain ⟨t, ht, htv⟩ := hrows hv
    obtain ⟨u, hu, huw⟩ := hrows hw
    obtain ⟨v', hv', -, -, -, -, hidt, -⟩ := (hanswers t ht).facts
    obtain ⟨w', hw', -, -, -, -, hidu, -⟩ := (hanswers u hu).facts
    obtain rfl := Option.some.inj (hv'.symm.trans htv)
    obtain rfl := Option.some.inj (hw'.symm.trans huw)
    have hids : v'.transactionId = w'.transactionId := by
      have hdigits := congrArg (fun p => (ofLex p).2) hrank
      exact List.map_injective_iff.mpr (fun a b h => UInt8.toNat_inj.mp h) hdigits
    obtain rfl := hid u hu t ht (by rw [← hidt, ← hidu, hids])
    exact Option.some.inj (htv.symm.trans huw)
  · intro v hv
    obtain ⟨t, ht, htv⟩ := List.mem_filterMap.mp hv
    have hmem := (hrun t).mp ((List.dropWhile_sublist _).subset ht)
    rcases List.mem_cons.mp hmem with rfl | hvotes
    · rw [hasks.facts.2.2.2] at htv
      cases htv
    · exact List.mem_filterMap.mpr ⟨t, hvotes, htv⟩
  · intro v hv
    obtain ⟨t, ht, htv⟩ := hrows hv
    obtain ⟨v', hv', -, hlow, hhigh, -⟩ := (hanswers t ht).facts
    obtain rfl := Option.some.inj (hv'.symm.trans htv)
    exact ⟨v'.optionIndex.toNat, by omega, by omega⟩
  · intro v hv
    obtain ⟨t, ht, htv⟩ := hrows hv
    obtain ⟨v', hv', -, -, -, -, -, hne, -⟩ := (hanswers t ht).facts
    obtain rfl := Option.some.inj (hv'.symm.trans htv)
    exact hne

/-! ## A vote before its poll -/

def samplePoll : Transaction :=
  sample 1 5 ["poll".toList, sampleKey '2' '2', sampleSignature 'b', "4oGg".toList,
    "QQ==,Qg==".toList, "100".toList]

def samplePollRows : Content × Poll :=
  (⟨[1], 5, 2 :: List.replicate 32 0x22, List.replicate 64 0xbb, "4oGg".toList, .poll, none, none⟩,
    ⟨[1], "QQ==,Qg==".toList, 100, 5⟩)

def sampleVote : Transaction :=
  sample 2 6 ["pollvote".toList, sampleKey '2' '1', sampleSignature 'c', "01".toList, "1".toList]

theorem sample_asks : Asks sampleEnv samplePollRows.1 samplePollRows.2 samplePoll :=
  ⟨⟨sampleKey '2' '2', sampleSignature 'b', "4oGg".toList, "QQ==,Qg==".toList, 100, [], true⟩,
    ⟨by decide +kernel, _, rfl, by decide +kernel, by decide +kernel⟩, by decide +kernel,
    by decide +kernel, by decide +kernel, by decide +kernel, by decide +kernel, rfl⟩

theorem sample_answers : ∀ t ∈ [sampleVote], Answers sampleEnv samplePollRows.2 t := by
  intro t ht
  obtain rfl := List.mem_singleton.mp ht
  exact ⟨⟨sampleKey '2' '1', sampleSignature 'c', "01".toList, 1⟩, sampleAuthor,
    ⟨by decide +kernel, _, rfl, by decide +kernel, by decide +kernel⟩, by decide +kernel,
    by decide +kernel, by decide +kernel, by decide +kernel⟩

theorem sample_polled : Polled sampleEnv samplePoll samplePollRows.1 samplePollRows.2 [sampleVote] []
    Db.empty :=
  ⟨fun _ _ => ⟨fun _ _ => rfl, fun _ _ => owned_of_unused rfl⟩, rfl, rfl, rfl, fun _ => Iff.rfl,
    fun _ h => absurd h List.not_mem_nil⟩

theorem sample_signatures : ∀ t ∈ [samplePoll, sampleVote], ∀ u ∈ [samplePoll, sampleVote],
    u.signature sampleEnv = t.signature sampleEnv → u = t := by
  decide +kernel

/-- A vote that comes before its poll, and not again, is lost. -/
theorem vote_dropped : Asks sampleEnv samplePollRows.1 samplePollRows.2 samplePoll ∧
    (∀ t ∈ [sampleVote], Answers sampleEnv samplePollRows.2 t) ∧
    Polled sampleEnv samplePoll samplePollRows.1 samplePollRows.2 [sampleVote] [] Db.empty ∧
    ¬ Served samplePollRows.2 ([sampleVote].filterMap (pollVoteRow sampleEnv)) (fun _ => True)
      (processAll sampleEnv noOutputs [sampleVote, samplePoll] Db.empty) := by
  refine ⟨sample_asks, sample_answers, sample_polled, fun h => ?_⟩
  obtain ⟨data, hdata, -, -, htotal, -⟩ := h sampleAuthor trivial
  have hnone : (enrichPolls [1] sampleAuthor
      (processAll sampleEnv noOutputs [sampleVote, samplePoll] Db.empty)).map (·.total) = some 0 := by
    decide +kernel
  have hpeople : (people ([sampleVote].filterMap (pollVoteRow sampleEnv))).card = 1 := by
    decide +kernel
  rw [show (enrichPolls [1] sampleAuthor (processAll sampleEnv noOutputs [sampleVote, samplePoll]
    Db.empty)) = some data from hdata, Option.map_some, htotal, hpeople] at hnone
  cases hnone

theorem vote_counted : Served samplePollRows.2 ([sampleVote].filterMap (pollVoteRow sampleEnv))
    (fun key => key = sampleAuthor) (processAll sampleEnv noOutputs [samplePoll, sampleVote] Db.empty) := by
  have hrows : [sampleVote].filterMap (pollVoteRow sampleEnv) =
      [⟨[2], [1], sampleAuthor, 1, 6, List.replicate 64 0xcc⟩] := by decide +kernel
  have hcounted : counted sampleEnv samplePoll [samplePoll, sampleVote] =
      [⟨[2], [1], sampleAuthor, 1, 6, List.replicate 64 0xcc⟩] := by decide +kernel
  refine (polls_exact_iff noOutputs [sampleVote] [samplePoll, sampleVote] (fun key => key = sampleAuthor)
    Db.empty sample_asks sample_answers ?_ sample_signatures (fun t => by simp) sample_polled
    ?_).mpr ?_
  · intro t ht u hu _
    rw [List.mem_singleton.mp ht, List.mem_singleton.mp hu]
  · rw [hrows]
    intro v hv
    rw [List.mem_singleton.mp hv]
  · rw [hrows, hcounted]
    refine ⟨fun v hv w hw _ => ?_, fun v _ => rfl, fun key hkey _ => ⟨_, List.mem_singleton_self _, ?_⟩⟩
    · rw [List.mem_singleton.mp hv, List.mem_singleton.mp hw]
    · exact hkey.symm

end KaChatIndexer.KaPolls

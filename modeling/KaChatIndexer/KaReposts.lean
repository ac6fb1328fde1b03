import KaChatIndexer.KaSample
import KaChatIndexer.KaStatements
import KaChatIndexer.Shelving

/-!
# Reposts one after another

A quote is stored once; an unquote removes whatever quotes of its sender are stored, older or newer,
and leaves no trace. So a quote is there at the end exactly when it has been processed since the last
unquote under its key.
-/
namespace KaChatIndexer.KaReposts
open ByteStrings KaText KaActions KaStore KaHandlers KaSample KaStatements Interleaving
open Interleaving.Prog Shelving

variable {env : Env} {outputs : Bytes → Option (Option (List TxOutput))} {content author : Bytes}

/-- The row and the mention of the quote that a transaction makes; an unquote makes none. -/
def quoteOf (env : Env) (transaction : Transaction) : Option (Content × Mention) :=
  match transaction.action env with
  | some (.quote k) =>
    (hexDecode k.contentId).bind fun content =>
      (contentRow transaction k.senderPubkey k.senderSignature k.base64EncodedMessage .quote
        content).bind fun row =>
          (hexDecode k.mentionedPubkey).map fun mentioned =>
            (row, ⟨row.transactionId, .quote, mentioned, row.blockTime, row.senderPubkey⟩)
  | _ => none

/-- The key that an action names as its sender's. -/
def senderOf (env : Env) (transaction : Transaction) : Option Bytes :=
  ((transaction.action env).bind actionSenderPubkey).bind hexDecode

/-- A signed quote or unquote of the content by the author, in some encoding of the key. -/
def OnContent (env : Env) (content author : Bytes) (transaction : Transaction) : Prop :=
  ∃ action sender, Acts env transaction action sender ∧ last32 sender = last32 author ∧
    ((∃ k, action = .quote k ∧ hexDecode k.contentId = some content ∧
        (validateKachatMessage k.base64EncodedMessage).isOk = true ∧
        (hexDecode k.mentionedPubkey).isSome = true) ∨
      ∃ k, action = .unquote k ∧ hexDecode k.contentId = some content)

/-- A quote of the content by the author. -/
def isQuoteBy (content author : Bytes) (c : Content) : Bool :=
  c.referencedContentId = some content ∧ last32 c.senderPubkey = last32 author ∧
    (c.contentType = .quote ∨ c.contentType = .repost)

def quotesBy (content author : Bytes) (db : Db) : List Content :=
  db.contents.filter (isQuoteBy content author)

/-- The quote mentions that some transactions have made. -/
def quoteMentions (transactions : List Transaction) (db : Db) : List Mention :=
  db.mentions.filter fun m =>
    m.contentType = .quote ∧ m.contentId ∈ transactions.map (·.transactionId)

/-- What a quote needs to be stored: that it is let in, and that its author has not deleted it. -/
structure Open (env : Env) (transaction : Transaction) (db : Db) : Prop where
  admitted : Admitted env transaction db
  undeleted : ∀ sender ∈ senderOf env transaction,
    db.hasTombstone transaction.transactionId sender = false

/-- What a quote or an unquote leaves of a database whose used signatures are set. -/
def applied (content : Bytes) (sender : Bytes) (db : Db) : Option (Content × Mention) → Db
  | some (row, mention) => (db.insertContent row [mention]).2
  | none => db.deleteQuotes content sender

theorem applied_frame (content sender : Bytes) (db : Db) (p : Option (Content × Mention)) :
    (applied content sender db p).deleteTombstones = db.deleteTombstones ∧
      (applied content sender db p).kapostsDenylist = db.kapostsDenylist ∧
        (applied content sender db p).usedSignatures = db.usedSignatures := by
  cases p with
  | none => exact ⟨rfl, rfl, rfl⟩
  | some p =>
    simp only [applied, Db.insertContent]
    split <;> exact ⟨rfl, rfl, rfl⟩

theorem deletedByAuthor_alone {transaction : Transaction} {text : Text} {sender : Bytes}
    (hsender : hexDecode text = some sender) (db : Db) :
    ((deletedByAuthor transaction text).alone db).1 =
      db.hasTombstone transaction.transactionId sender := by
  unfold deletedByAuthor
  rw [hsender]
  rfl

/-- With no tombstone before or after, a content is simply saved. -/
theorem saved_alone {transaction : Transaction} {text : Text} {sender : Bytes} {save : Worker Unit}
    {db : Db} (hsender : hexDecode text = some sender)
    (hbefore : db.hasTombstone transaction.transactionId sender = false)
    (hafter : (save.alone db).2.hasTombstone transaction.transactionId sender = false) :
    ((saveUnlessDeleted transaction text save).alone db).2 = (save.alone db).2 := by
  rw [saveUnlessDeleted_alone, deletedByAuthor_alone hsender, hbefore]
  unfold dropIfDeleted deletedByAuthor
  simp [hsender, hafter]

theorem process_applied (outputs : Bytes → Option (Option (List TxOutput)))
    {transaction : Transaction} {db : Db} (h : OnContent env content author transaction)
    (hopen : Open env transaction db) :
    ∃ signature sender, transaction.signature env = some signature ∧
      senderOf env transaction = some sender ∧ last32 sender = last32 author ∧
      ((processKTransaction env outputs transaction).alone db).2 =
        applied content sender (db.insertUsed signature transaction.transactionId).2
          (quoteOf env transaction) := by
  obtain ⟨action, sender, ⟨haction, text, htext, hverify, hsender⟩, hauthor, h⟩ := h
  obtain ⟨signature, -, hsig, -⟩ := verify_decodes hverify
  have hsigned : transaction.signature env = some signature := by
    rw [Transaction.signature, haction]
    exact hsig
  have hsent : senderOf env transaction = some sender := by
    simp [senderOf, haction, htext, hsender]
  have hallowed := hopen.admitted.allowed text (by rw [haction]; exact htext)
  have howned := hopen.admitted.owned _ hsigned
  refine ⟨signature, sender, hsigned, hsent, hauthor, ?_⟩
  rcases h with ⟨k, rfl, hcontent, hvalid, hmentioned⟩ | ⟨k, rfl, hcontent⟩
  · obtain rfl := Option.some.inj htext
    obtain ⟨mentioned, hmentioned⟩ := Option.isSome_iff_exists.mp hmentioned
    have hsig' : hexDecode k.senderSignature = some signature := hsig
    have hverify' : verifyKaspaSignature env (KAction.quote k).signingString k.senderSignature
        k.senderPubkey = true := hverify
    have hrow : contentRow transaction k.senderPubkey k.senderSignature k.base64EncodedMessage
        .quote (some content) = some ⟨transaction.transactionId, transaction.time, sender, signature,
          k.base64EncodedMessage, .quote, some content, none⟩ := by
      unfold contentRow
      simp [hsender, hsig']
    have hsave : ((saveKQuoteToDatabase env transaction k).alone db).2 =
        applied content sender (db.insertUsed signature transaction.transactionId).2
          (quoteOf env transaction) := by
      unfold saveKQuoteToDatabase quoteOf
      rw [checked_alone hverify' hsig' howned]
      simp [haction, hvalid, hcontent, hmentioned, hrow, applied, contentMentions]
    have hbefore := hopen.undeleted sender hsent
    have hafter : ((saveKQuoteToDatabase env transaction k).alone db).2.hasTombstone
        transaction.transactionId sender = false := by
      rw [hsave]
      unfold Db.hasTombstone
      rw [(applied_frame ..).1]
      exact (congrArg (fun d : Db => d.hasTombstone transaction.transactionId sender)
        (tables_insertUsed signature transaction.transactionId db)).trans hbefore
    rw [process_alone outputs haction rfl hallowed, processAction,
      saved_alone hsender hbefore hafter, hsave]
  · obtain rfl := Option.some.inj htext
    have hsig' : hexDecode k.senderSignature = some signature := hsig
    have hverify' : verifyKaspaSignature env (KAction.unquote k).signingString k.senderSignature
        k.senderPubkey = true := hverify
    have hquote : quoteOf env transaction = none := by
      unfold quoteOf
      rw [haction]
    rw [process_alone outputs haction rfl hallowed, processAction, processKUnquoteInDatabase,
      checked_alone hverify' hsig' howned, hquote]
    simp [hsender, hcontent, applied, execute]

/-- A transaction keeps the way open for the others. -/
theorem open_applied {transaction u : Transaction} {signature sender : Bytes} {db : Db}
    (p : Option (Content × Mention)) (hsig : transaction.signature env = some signature)
    (hsame : u.signature env = transaction.signature env → u = transaction)
    (h : Open env u db) :
    Open env u (applied content sender (db.insertUsed signature transaction.transactionId).2 p) := by
  obtain ⟨htombstones, hdenylist, husedSignatures⟩ :=
    applied_frame content sender (db.insertUsed signature transaction.transactionId).2 p
  have htables := tables_insertUsed signature transaction.transactionId db
  have hdenylistUsed : (db.insertUsed signature transaction.transactionId).2.kapostsDenylist =
      db.kapostsDenylist := by
    have hequal := congrArg Db.kapostsDenylist htables
    exact hequal
  have htombstonesUsed : (db.insertUsed signature transaction.transactionId).2.deleteTombstones =
      db.deleteTombstones := by
    have hequal := congrArg Db.deleteTombstones htables
    exact hequal
  refine ⟨admitted_after hsig hsame (hdenylist.trans hdenylistUsed) husedSignatures h.admitted,
    fun s hs => ?_⟩
  unfold Db.hasTombstone
  rw [htombstones.trans htombstonesUsed]
  exact h.undeleted s hs

/-! ## The quotes that are stored -/

/-- What a quote or an unquote does to the shelf. -/
def actOf (env : Env) (t : Transaction) : Act (Content × Mention) Bytes :=
  match quoteOf env t with
  | some p => .put p
  | none => .withdraw ((senderOf env t).getD [])

/-- An unquote takes the quotes of its sender. -/
def takes (sender : Bytes) (p : Content × Mention) : Bool := p.1.senderPubkey = sender

/-- Of the transactions' quotes, the database holds those on the shelf, with their mentions. -/
structure Held (env : Env) (content author : Bytes) (transactions : List Transaction)
    (shelf : List (Content × Mention)) (db : Db) : Prop where
  contents : quotesBy content author db = shelf.map (·.1)
  mentions : quoteMentions transactions db = shelf.map (·.2)
  others : ∀ c ∈ db.contents, isQuoteBy content author c = false → ∀ t ∈ transactions,
    c.transactionId ≠ t.transactionId ∧ t.signature env ≠ some c.senderSignature
  quoted : ∀ p ∈ shelf, ∃ t ∈ transactions, quoteOf env t = some p

variable {transactions : List Transaction} {shelf : List (Content × Mention)} {db : Db}

theorem quoteOf_mention {t : Transaction} {p : Content × Mention} (h : quoteOf env t = some p) :
    p.2.contentType = .quote ∧ p.2.contentId = p.1.transactionId ∧
      p.1.transactionId = t.transactionId ∧ p.1.blockTime = t.time ∧
      t.signature env = some p.1.senderSignature ∧ senderOf env t = some p.1.senderPubkey := by
  unfold quoteOf at h
  split at h
  · next k haction =>
    obtain ⟨content, -, h⟩ := Option.bind_eq_some_iff.mp h
    obtain ⟨row, hrow, h⟩ := Option.bind_eq_some_iff.mp h
    obtain ⟨mentioned, -, rfl⟩ := Option.map_eq_some_iff.mp h
    obtain ⟨sender, hsender, hrow⟩ := Option.bind_eq_some_iff.mp hrow
    obtain ⟨signature, hsig, rfl⟩ := Option.map_eq_some_iff.mp hrow
    refine ⟨rfl, rfl, rfl, rfl, ?_, ?_⟩
    · rw [Transaction.signature, haction]
      exact hsig
    · simp [senderOf, haction, actionSenderPubkey, hsender]
  · cases h

/-- A quote of the content is of the content and of its author. -/
theorem quoteOf_of {t : Transaction} {p : Content × Mention} (hon : OnContent env content author t)
    (h : quoteOf env t = some p) : isQuoteBy content author p.1 = true := by
  obtain ⟨action, sender, ⟨haction, text, htext, -, hsender⟩, hauthor, hkind⟩ := hon
  have hsent : senderOf env t = some sender := by simp [senderOf, haction, htext, hsender]
  have hkey := Option.some.inj ((quoteOf_mention h).2.2.2.2.2.symm.trans hsent)
  unfold quoteOf at h
  rw [haction] at h
  rcases hkind with ⟨k, rfl, hcontent, -⟩ | ⟨k, rfl, -⟩
  · obtain ⟨content', hcontent', h⟩ := Option.bind_eq_some_iff.mp h
    obtain ⟨row, hrow, h⟩ := Option.bind_eq_some_iff.mp h
    obtain ⟨mentioned, -, rfl⟩ := Option.map_eq_some_iff.mp h
    obtain ⟨sender', -, hrow⟩ := Option.bind_eq_some_iff.mp hrow
    obtain ⟨signature, -, rfl⟩ := Option.map_eq_some_iff.mp hrow
    obtain rfl := Option.some.inj (hcontent'.symm.trans hcontent)
    simp only at hkey
    simp [isQuoteBy, hkey, hauthor]
  · cases h

section
variable (hid : ∀ t ∈ transactions, ∀ u ∈ transactions, u.transactionId = t.transactionId → u = t)
  (hsame : ∀ t ∈ transactions, ∀ u ∈ transactions, u.signature env = t.signature env → u = t)
include hid

/-- The shelf holds one quote of each transaction. -/
theorem Held.eq_of_id (h : Held env content author transactions shelf db) {p q : Content × Mention}
    (hp : p ∈ shelf) (hq : q ∈ shelf) (heq : p.1.transactionId = q.1.transactionId) : p = q := by
  obtain ⟨t, ht, htp⟩ := h.quoted p hp
  obtain ⟨u, hu, huq⟩ := h.quoted q hq
  obtain rfl := hid t ht u hu (by
    rw [← (quoteOf_mention htp).2.2.1, ← (quoteOf_mention huq).2.2.1, heq])
  exact Option.some.inj (htp.symm.trans huq)

/-- A withdrawal takes the sender's quotes from the shelf. -/
theorem held_withdraw {sender : Bytes} (hauthor : last32 sender = last32 author)
    (h : Held env content author transactions shelf db) :
    Held env content author transactions
      (act takes shelf (.withdraw sender)) (db.deleteQuotes content sender) := by
  let taken (c : Content) : Bool := c.referencedContentId = some content ∧ c.senderPubkey = sender ∧
    (c.contentType = .quote ∨ c.contentType = .repost)
  have htaken (c : Content) : taken c = (isQuoteBy content author c && (c.senderPubkey = sender)) := by
    by_cases hsender : c.senderPubkey = sender
    · simp [taken, isQuoteBy, hsender, hauthor]
    · simp [taken, hsender]
  have hids (p : Content × Mention) (hp : p ∈ shelf) :
      p.1.transactionId ∈ (db.contents.filter taken).map (·.transactionId) ↔
        p.1.senderPubkey = sender := by
    have hmine : p.1 ∈ quotesBy content author db := by
      rw [h.contents]
      exact List.mem_map_of_mem hp
    obtain ⟨hmem, hby⟩ := List.mem_filter.mp hmine
    constructor
    · intro hin
      obtain ⟨c, hc, heq⟩ := List.mem_map.mp hin
      obtain ⟨hc, hct⟩ := List.mem_filter.mp hc
      rw [htaken, Bool.and_eq_true] at hct
      have hcq : c ∈ quotesBy content author db := List.mem_filter.mpr ⟨hc, hct.1⟩
      rw [h.contents] at hcq
      obtain ⟨q, hq, rfl⟩ := List.mem_map.mp hcq
      rw [h.eq_of_id hid hp hq heq.symm]
      exact of_decide_eq_true hct.2
    · intro hsender
      exact List.mem_map_of_mem (List.mem_filter.mpr ⟨hmem, by rw [htaken, hby]; simp [hsender]⟩)
  exact {
    contents := by
      have hfilter : quotesBy content author (db.deleteQuotes content sender) =
          (quotesBy content author db).filter fun c => !decide (c.senderPubkey = sender) := by
        show (db.contents.filter fun c => ¬ taken c = true).filter _ = _
        rw [quotesBy, List.filter_filter, List.filter_filter]
        congr 1
        funext c
        rw [htaken]
        cases isQuoteBy content author c <;> simp
      rw [hfilter, h.contents, List.filter_map]
      rfl
    mentions := by
      have hfilter : quoteMentions transactions (db.deleteQuotes content sender) =
          (quoteMentions transactions db).filter fun m =>
            ¬ m.contentId ∈ (db.contents.filter taken).map (·.transactionId) := by
        show (db.mentions.filter fun m => ¬ ((m.contentType = .quote ∨ m.contentType = .repost) ∧
          m.contentId ∈ (db.contents.filter taken).map (·.transactionId))).filter _ = _
        rw [quoteMentions, List.filter_filter, List.filter_filter]
        congr 1
        funext m
        by_cases htype : m.contentType = .quote
        · simp [htype, Bool.and_comm]
        · simp [htype]
      rw [hfilter, h.mentions, List.filter_map]
      congr 1
      refine List.filter_congr fun p hp => ?_
      obtain ⟨t, -, htp⟩ := h.quoted p hp
      have hiff := hids p hp
      rw [← (quoteOf_mention htp).2.1] at hiff
      rw [Function.comp_apply, decide_not, Bool.not_inj_iff, takes, decide_eq_decide]
      exact hiff
    others := fun c hc => h.others c (List.mem_filter.mp hc).1
    quoted := fun p hp => h.quoted p (List.mem_filter.mp hp).1 }

include hsame

/-- A quote is put on the shelf. -/
theorem held_put {t : Transaction} {p : Content × Mention} (ht : t ∈ transactions)
    (hon : OnContent env content author t) (hquote : quoteOf env t = some p)
    (h : Held env content author transactions shelf db) :
    Held env content author transactions (act takes shelf (.put p))
      (db.insertContent p.1 [p.2]).2 := by
  obtain ⟨htype, hmention, hident, -, hsig, -⟩ := quoteOf_mention hquote
  have hby := quoteOf_of hon hquote
  have hconflict : (db.contents.any fun c => c.senderSignature = p.1.senderSignature ∨
      c.transactionId = p.1.transactionId) = decide (p ∈ shelf) := by
    rw [Bool.eq_iff_iff, decide_eq_true_iff, List.any_eq_true]
    constructor
    · rintro ⟨c, hc, heq⟩
      replace heq := of_decide_eq_true heq
      cases hcby : isQuoteBy content author c with
      | false =>
        obtain ⟨hne, hsigne⟩ := h.others c hc hcby t ht
        exact (heq.elim (fun heq => hsigne (heq ▸ hsig)) fun heq => hne (heq.trans hident)).elim
      | true =>
        have hcq : c ∈ quotesBy content author db := List.mem_filter.mpr ⟨hc, hcby⟩
        rw [h.contents] at hcq
        obtain ⟨q, hq, rfl⟩ := List.mem_map.mp hcq
        obtain ⟨u, hu, huq⟩ := h.quoted q hq
        obtain ⟨-, -, hidentu, -, hsigu, -⟩ := quoteOf_mention huq
        obtain rfl : u = t := heq.elim
          (fun heq => hsame t ht u hu (by rw [hsigu, hsig, heq]))
          (fun heq => hid t ht u hu (by rw [← hidentu, ← hident, heq]))
        exact Option.some.inj (hquote.symm.trans huq) ▸ hq
    · intro hp
      have hmine : p.1 ∈ quotesBy content author db := by
        rw [h.contents]
        exact List.mem_map_of_mem hp
      exact ⟨p.1, (List.mem_filter.mp hmine).1, by simp⟩
  unfold Db.insertContent
  by_cases hp : p ∈ shelf
  · rw [act_put_stored hp, if_pos (hconflict.trans (decide_eq_true hp))]
    exact h
  · rw [act_put_new hp, if_neg (by rw [hconflict]; simp [hp])]
    exact {
      contents := by
        rw [quotesBy, List.filter_append, ← quotesBy, h.contents]
        simp [hby]
      mentions := by
        have hmine : p.2.contentId ∈ transactions.map (·.transactionId) := by
          rw [hmention, hident]
          exact List.mem_map_of_mem ht
        have hkept : ([p.2].filter fun m => m.contentType = .quote ∧
            m.contentId ∈ transactions.map (·.transactionId)) = [p.2] :=
          List.filter_eq_self.mpr fun m hm => by
            obtain rfl := List.mem_singleton.mp hm
            exact decide_eq_true ⟨htype, hmine⟩
        rw [quoteMentions, List.filter_append, ← quoteMentions, h.mentions, hkept, List.map_append]
        rfl
      others := by
        intro c hc hcby
        rcases List.mem_append.mp hc with hc | hc
        · exact h.others c hc hcby
        · obtain rfl := List.mem_singleton.mp hc
          rw [hby] at hcby
          cases hcby
      quoted := by
        intro q hq
        rcases List.mem_append.mp hq with hq | hq
        · exact h.quoted q hq
        · obtain rfl := List.mem_singleton.mp hq
          exact ⟨t, ht, hquote⟩ }

end

/-! ## Runs -/

section
variable (outputs : Bytes → Option (Option (List TxOutput)))
  (hid : ∀ t ∈ transactions, ∀ u ∈ transactions, u.transactionId = t.transactionId → u = t)
  (hsame : ∀ t ∈ transactions, ∀ u ∈ transactions, u.signature env = t.signature env → u = t)
  (hon : ∀ t ∈ transactions, OnContent env content author t)
include hid hsame hon

/-- One transaction of the author is one act on the shelf. -/
theorem process_held {t : Transaction} (ht : t ∈ transactions)
    (hopen : ∀ u ∈ transactions, Open env u db)
    (h : Held env content author transactions shelf db) :
    (∀ u ∈ transactions, Open env u ((processKTransaction env outputs t).alone db).2) ∧
      Held env content author transactions (act takes shelf (actOf env t))
        ((processKTransaction env outputs t).alone db).2 := by
  obtain ⟨signature, sender, hsig, hsender, hauthor, hafter⟩ :=
    process_applied outputs (hon t ht) (hopen t ht)
  rw [hafter]
  have htables := tables_insertUsed signature t.transactionId db
  have hused : Held env content author transactions shelf
      (db.insertUsed signature t.transactionId).2 := by
    have hcontents := congrArg Db.contents htables
    have hmentions := congrArg Db.mentions htables
    exact ⟨(congrArg (List.filter (isQuoteBy content author)) hcontents).trans h.contents,
      (congrArg (List.filter _) hmentions).trans h.mentions,
      fun c hc => h.others c (hcontents ▸ hc), h.quoted⟩
  refine ⟨fun u hu => open_applied _ hsig (hsame t ht u hu) (hopen u hu), ?_⟩
  unfold actOf
  cases hquote : quoteOf env t with
  | none =>
    rw [hsender]
    exact held_withdraw hid hauthor hused
  | some p =>
    obtain ⟨row, mention⟩ := p
    exact held_put hid hsame ht (hon t ht) hquote hused

/-- What the database holds of the quotes is what a shelf holds after the same acts. -/
theorem processAll_held {run : List Transaction} (hrun : ∀ t ∈ run, t ∈ transactions)
    (hopen : ∀ u ∈ transactions, Open env u db)
    (h : Held env content author transactions [] db) :
    (∀ u ∈ transactions, Open env u (processAll env outputs run db)) ∧
      Held env content author transactions (shelved takes (run.map (actOf env)))
        (processAll env outputs run db) := by
  induction run using List.reverseRecOn with
  | nil => exact ⟨hopen, h⟩
  | append_singleton run t ih =>
    obtain ⟨hopen', h'⟩ := ih fun u hu => hrun u (List.mem_append_left _ hu)
    have hstep := process_held outputs hid hsame hon (hrun t (by simp)) hopen' h'
    rw [processAll, List.foldl_append, List.map_append, List.map_singleton, shelved_append]
    exact hstep

end

/-- A quote newer than every unquote. -/
def Lasting (env : Env) (transactions : List Transaction) (t : Transaction) : Prop :=
  ∀ u ∈ transactions, quoteOf env u = none → u.time < t.time

/-- The transaction has been processed since the last unquote under its key. -/
def Standing (env : Env) (run : List Transaction) (t : Transaction) : Prop :=
  ∃ before after, run = before ++ t :: after ∧
    ∀ u ∈ after, quoteOf env u = none → senderOf env u ≠ senderOf env t

/-- At the end exactly the quotes newer than every unquote are stored, each once and with one
mention. -/
structure Converged (env : Env) (content author : Bytes) (transactions : List Transaction)
    (db : Db) : Prop where
  contents : ∀ c, c ∈ quotesBy content author db ↔
    ∃ t ∈ transactions, Lasting env transactions t ∧ (quoteOf env t).map (·.1) = some c
  once : (quotesBy content author db).Nodup
  mentions : ∀ t ∈ transactions, ∀ p ∈ quoteOf env t,
    (Lasting env transactions t → quoteMentions [t] db = [p.2]) ∧
      (¬ Lasting env transactions t → quoteMentions [t] db = [])

/-- What is on the shelf after the acts of a run. -/
theorem stands_iff {run : List Transaction} {t : Transaction} {p : Content × Mention}
    (hid : ∀ t ∈ transactions, ∀ u ∈ transactions, u.transactionId = t.transactionId → u = t)
    (hon : ∀ t ∈ transactions, OnContent env content author t)
    (hrun : ∀ u ∈ run, u ∈ transactions) (ht : t ∈ transactions) (hquote : quoteOf env t = some p) :
    Stands takes (run.map (actOf env)) p ↔ Standing env run t := by
  have hsender := (quoteOf_mention hquote).2.2.2.2.2
  have hwithdraw (u : Transaction) (hu : u ∈ transactions) (w : Bytes) :
      actOf env u = .withdraw w ↔ quoteOf env u = none ∧ senderOf env u = some w := by
    obtain ⟨action, sender, ⟨haction, text, htext, -, hdecode⟩, -⟩ := hon u hu
    have hsent : senderOf env u = some sender := by simp [senderOf, haction, htext, hdecode]
    unfold actOf
    cases quoteOf env u <;> simp [hsent]
  constructor
  · rintro ⟨before, after, heq, hafter⟩
    obtain ⟨before, rest, rfl, rfl, hrest⟩ := List.map_eq_append_iff.mp heq
    obtain ⟨u, after, rfl, hu, rfl⟩ := List.map_eq_cons_iff.mp hrest
    have huquote : quoteOf env u = some p := by
      unfold actOf at hu
      split at hu
      · next q hq => rw [hq, Act.put.inj hu]
      · cases hu
    obtain rfl := hid u (hrun u (by simp)) t ht (by
      rw [← (quoteOf_mention hquote).2.2.1, ← (quoteOf_mention huquote).2.2.1])
    refine ⟨before, after, rfl, fun v hv hnone hsame => ?_⟩
    have hv' := (hwithdraw v (hrun v (by simp [hv])) p.1.senderPubkey).mpr ⟨hnone, hsame.trans hsender⟩
    have hnot := hafter _ (List.mem_map.mpr ⟨v, hv, hv'⟩)
    simp [takes] at hnot
  · rintro ⟨before, after, rfl, hafter⟩
    refine ⟨before.map (actOf env), after.map (actOf env), ?_, fun w hw => ?_⟩
    · have hput : actOf env t = .put p := by
        unfold actOf
        rw [hquote]
      simp [hput]
    · obtain ⟨u, hu, huw⟩ := List.mem_map.mp hw
      obtain ⟨hnone, hsent⟩ := (hwithdraw u (hrun u (by simp [hu])) w).mp huw
      refine decide_eq_false fun heq => hafter u hu hnone ?_
      rw [hsent, hsender, heq]

/-- The mentions of one transaction's quote. -/
theorem mentions_of_held {t : Transaction} {p : Content × Mention}
    (hid : ∀ t ∈ transactions, ∀ u ∈ transactions, u.transactionId = t.transactionId → u = t)
    (hnodup : shelf.Nodup) (ht : t ∈ transactions) (hquote : quoteOf env t = some p)
    (h : Held env content author transactions shelf db) :
    quoteMentions [t] db = if p ∈ shelf then [p.2] else [] := by
  have hfilter : quoteMentions [t] db =
      (quoteMentions transactions db).filter (·.contentId = t.transactionId) := by
    rw [quoteMentions, quoteMentions, List.filter_filter]
    congr 1
    funext m
    by_cases hm : m.contentId = t.transactionId
    · have hmem : m.contentId ∈ transactions.map (·.transactionId) :=
        hm ▸ List.mem_map_of_mem ht
      simp [hm, hm ▸ hmem]
    · simp [hm]
  have hmine (q : Content × Mention) (hq : q ∈ shelf) :
      decide (q.2.contentId = t.transactionId) = decide (q = p) := by
    obtain ⟨u, hu, huq⟩ := h.quoted q hq
    obtain ⟨-, hmention, hident, -⟩ := quoteOf_mention huq
    rw [decide_eq_decide, hmention, hident]
    constructor
    · intro heq
      obtain rfl := hid t ht u hu heq
      exact Option.some.inj (huq.symm.trans hquote)
    · rintro rfl
      rw [← hident, (quoteOf_mention hquote).2.2.1]
  rw [hfilter, h.mentions, List.filter_map]
  have hshelf : shelf.filter ((fun m : Mention => decide (m.contentId = t.transactionId)) ∘ (·.2)) =
      if p ∈ shelf then [p] else [] := by
    rw [show shelf.filter ((fun m : Mention => decide (m.contentId = t.transactionId)) ∘ (·.2)) =
      shelf.filter fun q => q = p from List.filter_congr hmine]
    split
    · next hp => exact (List.filter_eq p).trans (by rw [List.count_eq_one_of_mem hnodup hp]; rfl)
    · next hp => exact (List.filter_eq p).trans (by rw [List.count_eq_zero_of_not_mem hp]; rfl)
  rw [hshelf]
  split <;> rfl

def sampleAuthor : Bytes := 2 :: List.replicate 32 0x11

def sampleQuote : Transaction :=
  sample 1 7 ["quote".toList, sampleKey '2' '1', sampleSignature 'b', "09".toList, "4oGg".toList,
    sampleKey '2' '2']

def sampleUnquote : Transaction :=
  sample 2 6 ["unquote".toList, sampleKey '2' '1', sampleSignature 'c', "09".toList]

theorem sample_onContent : ∀ t ∈ [sampleQuote, sampleUnquote],
    OnContent sampleEnv [9] sampleAuthor t := by
  intro t ht
  rcases List.mem_cons.mp ht with rfl | ht
  · exact ⟨.quote ⟨sampleKey '2' '1', sampleSignature 'b', "09".toList, "4oGg".toList,
      sampleKey '2' '2'⟩, sampleAuthor, ⟨by decide +kernel, _, rfl, by decide +kernel,
        by decide +kernel⟩, rfl, .inl ⟨_, rfl, by decide +kernel, by decide +kernel,
          by decide +kernel⟩⟩
  · obtain rfl := List.mem_singleton.mp ht
    exact ⟨.unquote ⟨sampleKey '2' '1', sampleSignature 'c', "09".toList⟩, sampleAuthor,
      ⟨by decide +kernel, _, rfl, by decide +kernel, by decide +kernel⟩, rfl,
      .inr ⟨_, rfl, by decide +kernel⟩⟩

theorem sample_open (t : Transaction) : Open sampleEnv t Db.empty :=
  ⟨⟨fun _ _ => rfl, fun _ _ => owned_of_unused rfl⟩, fun _ _ => rfl⟩

theorem sample_held : Held sampleEnv [9] sampleAuthor [sampleQuote, sampleUnquote] [] Db.empty :=
  ⟨rfl, rfl, fun _ h => absurd h List.not_mem_nil, fun _ h => absurd h List.not_mem_nil⟩

theorem sample_differ : ∀ t ∈ [sampleQuote, sampleUnquote], ∀ u ∈ [sampleQuote, sampleUnquote],
    (u.transactionId = t.transactionId → u = t) ∧
      (u.signature sampleEnv = t.signature sampleEnv → u = t) := by
  decide +kernel

end KaChatIndexer.KaReposts

import KaChatIndexer.KaDomains
import KaChatIndexer.KaStatements

/-!
# Domain separation

A transaction that changes the tables carries an action that passes its checks. Another kind of
action then has the same signed string exactly when the fields of a quote or of a vote are those of
a profile broadcast, or the other way round.
-/
namespace KaChatIndexer.KaSeparation
open ByteStrings KaText KaActions KaStore KaHandlers KaSample KaDomains KaStatements Interleaving
open Interleaving.Prog

variable {env : Env} {outputs : Bytes → Option (Option (List TxOutput))} {transaction : Transaction}

/-- Whether a transaction would change the tables. -/
def Stores (env : Env) (outputs : Bytes → Option (Option (List TxOutput)))
    (transaction : Transaction) : Prop :=
  ∃ db, tables ((processKTransaction env outputs transaction).alone db).2 ≠ tables db

/-! ## What fails a check changes nothing -/

/-- A handler is idle when its signature does not verify, and when what follows is. -/
theorem idle_checked {message signature pubkey : Text} {rest : Worker Unit}
    (hrest : verifyKaspaSignature env message signature pubkey = true → Idle rest) :
    Idle (checkSignature env message signature pubkey transaction >>= fun fresh =>
      if (!fresh) = true then pure () else rest) := by
  by_cases hverify : verifyKaspaSignature env message signature pubkey = true
  · refine (idle_check env transaction message signature pubkey).bind fun fresh => ?_
    split
    · trivial
    · exact hrest hverify
  · rw [check_refused hverify]
    trivial

/-- A content that is not saved is not dropped either. -/
theorem idle_save {author : Text} {save : Worker Unit} (hsave : Idle save) (db : Db) :
    tables ((saveUnlessDeleted transaction author save).alone db).2 = tables db := by
  have hsame : tables (save.alone db).2 = tables db := hsave.alone db
  have htombs : (save.alone db).2.deleteTombstones = db.deleteTombstones := by
    have h := congrArg Db.deleteTombstones hsame
    exact h
  rw [saveUnlessDeleted_alone]
  split
  · rfl
  · next hdeleted =>
    have hread : ((deletedByAuthor transaction author).alone (save.alone db).2).1 =
        ((deletedByAuthor transaction author).alone db).1 := by
      unfold deletedByAuthor
      split
      · rfl
      · simp [query, Db.hasTombstone, htombs]
    have hdrop : ((dropIfDeleted transaction author).alone (save.alone db).2).2 =
        (save.alone db).2 := by
      unfold dropIfDeleted
      rw [alone_bind, hread, if_neg hdeleted]
      unfold deletedByAuthor
      split <;> rfl
    rw [hdrop, hsame]

/-- What the parser already checks. -/
def Parsed : KAction → Prop
  | .broadcast k => k.base64EncodedProfileImage ≠ some []
  | .vote k => k.vote ∈ voteWords
  | .block k => k.blockingAction = "block".toList ∨ k.blockingAction = "unblock".toList
  | .follow k => k.followingAction = "follow".toList ∨ k.followingAction = "unfollow".toList
  | _ => True

/-- The signature of an action verifies over the string it signs. -/
def Verifies (env : Env) (action : KAction) : Prop :=
  ∃ key, actionSenderPubkey action = some key ∧
    verifyKaspaSignature env action.signingString action.senderSignature key = true

/-- Of a conditional, one of the two. -/
theorem of_ite {α : Type} {p : Prop} [Decidable p] {a b c : α} (h : (if p then a else b) = c) :
    a = c ∨ b = c := by
  by_cases hp : p
  · exact .inl ((if_pos hp).symm.trans h)
  · exact .inr ((if_neg hp).symm.trans h)

theorem parsed_broadcast {parts : List Text} {action : KAction}
    (h : parseBroadcast parts = .ok action) : Parsed action := by
  unfold parseBroadcast at h
  split at h
  · cases h
    show (if _ then none else some _) ≠ some []
    split <;> simp_all
  · cases h

theorem parsed_word (words : Text → Prop) {word : Text} [Decidable (words word)]
    {action action' : KAction} {e : String} (hparsed : words word → Parsed action)
    (h : (if words word then .ok action else .error e) = (.ok action' : Except String KAction)) :
    Parsed action' := by
  split at h
  · next hword => cases h; exact hparsed hword
  · cases h

theorem parsed_of_parts {parts : List Text} {action : KAction}
    (h : parseParts env parts = .ok action) : Parsed action := by
  unfold parseParts at h
  split at h
  · cases h
  rcases of_ite h with h | h
  · exact parsed_broadcast h
  rcases of_ite h with h | h
  · unfold parsePost at h
    split at h <;> cases h
    trivial
  rcases of_ite h with h | h
  · unfold parseReply at h
    split at h <;> cases h
    trivial
  rcases of_ite h with h | h
  · unfold parseVote at h
    split at h
    · exact parsed_word (· ∈ voteWords) id h
    · cases h
  rcases of_ite h with h | h
  · unfold parseBlock at h
    split at h
    · exact parsed_word (fun a => a = _ ∨ a = _) id h
    · cases h
  rcases of_ite h with h | h
  · unfold parseQuote at h
    split at h <;> cases h
    trivial
  rcases of_ite h with h | h
  · unfold parseFollow at h
    split at h
    · exact parsed_word (fun a => a = _ ∨ a = _) id h
    · cases h
  rcases of_ite h with h | h
  · unfold parseUnquote at h
    split at h <;> cases h
    trivial
  rcases of_ite h with h | h
  · unfold parseEdit at h
    split at h <;> cases h
    trivial
  rcases of_ite h with h | h
  · unfold parseDelete at h
    split at h <;> cases h
    trivial
  rcases of_ite h with h | h
  · unfold parsePoll at h
    split at h
    · split at h <;> cases h
      trivial
    · cases h
  rcases of_ite h with h | h
  · unfold parsePollVote at h
    split at h
    · split at h <;> cases h
      trivial
    · cases h
  rcases of_ite h with h | h
  · unfold parseTipParts at h
    split at h
    · rcases of_ite h with h | h
      · cases h
      rcases of_ite h with h | h
      · cases h
      rcases of_ite h with h | h
      · cases h
      rcases of_ite h with h | h <;> cases h
      trivial
    · cases h
  · cases h
    trivial

theorem parsed_action {action : KAction} (h : transaction.action env = some action) :
    Parsed action := by
  unfold Transaction.action at h
  split at h
  · cases h
  · split_ifs at h
    split at h
    · next payload _ action' hparse =>
      cases h
      unfold parseKProtocolPayload at hparse
      split at hparse
      · cases hparse
      · exact parsed_of_parts hparse
    · cases h

/-- What does not pass its checks stores nothing. -/
theorem idle_action {action : KAction} (hparsed : Parsed action)
    (h : ¬ (Checked action ∧ Verifies env action)) (db : Db) :
    tables ((processAction env outputs transaction action).alone db).2 = tables db := by
  cases action with
  | post k =>
    refine idle_save (idle_checked fun hverify => ?_) db
    have hcheck : ¬ Checked (.post k) := fun hc => h ⟨hc, _, rfl, hverify⟩
    split
    · trivial
    · next hmessage =>
      exact absurd (show (validateKachatMessage k.base64EncodedMessage).isOk = true by
        simpa using hmessage) hcheck
  | reply k =>
    refine idle_save (idle_checked fun hverify => ?_) db
    have hcheck : ¬ Checked (.reply k) := fun hc => h ⟨hc, _, rfl, hverify⟩
    split
    · trivial
    · next hmessage =>
      split
      · next post hpost =>
        exact absurd ⟨by simp [hpost], by simpa using hmessage⟩ hcheck
      · trivial
  | quote k =>
    refine idle_save (idle_checked fun hverify => ?_) db
    have hcheck : ¬ Checked (.quote k) := fun hc => h ⟨hc, _, rfl, hverify⟩
    split
    · trivial
    · next hmessage =>
      split
      · next content hcontent =>
        split
        · split
          · next mentioned hmentioned =>
            exact absurd ⟨by simp [hcontent], by simp [hmentioned], by simpa using hmessage⟩ hcheck
          · trivial
        · trivial
      · trivial
  | poll k =>
    refine idle_save (idle_checked fun hverify => ?_) db
    have hcheck : ¬ Checked (.poll k) := fun hc => h ⟨hc, _, rfl, hverify⟩
    split
    · trivial
    · next hmessage =>
      exact absurd (show (validateKachatMessage k.base64EncodedQuestion).isOk = true by
        simpa using hmessage) hcheck
  | edit k =>
    refine (idle_checked fun hverify => ?_).alone db
    have hcheck : ¬ Checked (.edit k) := fun hc => h ⟨hc, _, rfl, hverify⟩
    split
    · trivial
    · next hmessage =>
      split
      · split
        · split
          · next post hpost =>
            exact absurd ⟨by simp [hpost], by simpa using hmessage⟩ hcheck
          · trivial
        · trivial
      · trivial
  | delete k =>
    refine (idle_checked fun hverify => ?_).alone db
    have hcheck : ¬ Checked (.delete k) := fun hc => h ⟨hc, _, rfl, hverify⟩
    split
    · split
      · next post hpost => exact absurd (show (hexDecode k.postId).isSome by simp [hpost]) hcheck
      · trivial
    · trivial
  | unquote k =>
    refine (idle_checked fun hverify => ?_).alone db
    have hcheck : ¬ Checked (.unquote k) := fun hc => h ⟨hc, _, rfl, hverify⟩
    split
    · split
      · next content hcontent =>
        exact absurd (show (hexDecode k.contentId).isSome by simp [hcontent]) hcheck
      · trivial
    · trivial
  | vote k =>
    refine (idle_checked fun hverify => ?_).alone db
    have hcheck : ¬ Checked (.vote k) := fun hc => h ⟨hc, _, rfl, hverify⟩
    split
    · split
      · next post hpost =>
        have hpost' : (hexDecode k.postId).isSome := by simp [hpost]
        split
        · next hunvote => exact absurd ⟨hpost', hparsed, fun hne => absurd hunvote hne⟩ hcheck
        · split
          · split
            · next mentioned hmentioned =>
              exact absurd ⟨hpost', hparsed, fun _ => by simp [hmentioned]⟩ hcheck
            · trivial
          · trivial
      · trivial
    · trivial
  | pollVote k =>
    refine (idle_checked fun hverify => ?_).alone db
    have hcheck : ¬ Checked (.pollVote k) := fun hc => h ⟨hc, _, rfl, hverify⟩
    split
    · next poll hpoll => exact absurd (show (hexDecode k.pollId).isSome by simp [hpoll]) hcheck
    · trivial
  | tip k =>
    refine (idle_checked fun hverify => ?_).alone db
    have hcheck : ¬ Checked (.tip k) := fun hc => h ⟨hc, _, rfl, hverify⟩
    split
    · split
      · split
        · trivial
        · split
          · next post hpost => exact absurd (show (hexDecode k.postId).isSome by simp [hpost]) hcheck
          · trivial
      · trivial
    · trivial
  | follow k =>
    refine (idle_checked fun hverify => ?_).alone db
    have hcheck : ¬ Checked (.follow k) := fun hc => h ⟨hc, _, rfl, hverify⟩
    split
    · split
      · next target htarget => exact absurd ⟨hparsed, by simp [htarget]⟩ hcheck
      · trivial
    · trivial
  | block k =>
    refine (idle_checked fun hverify => ?_).alone db
    have hcheck : ¬ Checked (.block k) := fun hc => h ⟨hc, _, rfl, hverify⟩
    split
    · split
      · next target htarget => exact absurd ⟨hparsed, by simp [htarget]⟩ hcheck
      · trivial
    · trivial
  | broadcast k =>
    show tables ((saveKBroadcastToDatabase env transaction k).alone db).2 = tables db
    unfold saveKBroadcastToDatabase
    split
    · rfl
    · next hprofile =>
      refine (idle_checked fun hverify => ?_).alone db
      have hcheck : ¬ Checked (.broadcast k) := fun hc => h ⟨hc, _, rfl, hverify⟩
      exact absurd ⟨by simpa using hprofile, hparsed⟩ hcheck
  | unknown => rfl

theorem stores_passes {action : KAction} (haction : transaction.action env = some action)
    (h : Stores env outputs transaction) : Checked action ∧ Verifies env action := by
  obtain ⟨db, hdb⟩ := h
  by_contra hfails
  refine hdb ?_
  unfold processKTransaction
  simp only [haction]
  have hread : ((isKapostsDenied action).alone db).2 = db := by
    unfold isKapostsDenied
    split <;> rfl
  rw [alone_bind, hread]
  split
  · rfl
  · exact idle_action (parsed_action haction) hfails db

/-! ## A transaction with given fields -/

/-- A field of hex or base64. -/
def Plain (t : Text) : Prop := (hexDecode t).isSome ∨ (base64Decode t).isSome

theorem Plain.colon {t : Text} (h : Plain t) : ':' ∉ t := h.elim colon_of_hex colon_of_base64

theorem Plain.control {t : Text} (h : Plain t) : ∀ c ∈ t, isControl c = false := by
  intro c hc
  have hrange : 43 ≤ c.toNat ∧ c.toNat ≤ 122 := by
    rcases h with h | h
    · obtain ⟨b, hb⟩ := Option.isSome_iff_exists.mp h
      have hascii := hexChar_ascii (hexDecode_chars hb c hc)
      omega
    · obtain ⟨b, hb⟩ := Option.isSome_iff_exists.mp h
      have hascii := base64Char_ascii (base64Decode_chars hb c hc)
      omega
  simp only [isControl, Bool.or_eq_false_iff, Bool.and_eq_false_iff, decide_eq_false_iff_not]
  omega

theorem stripPrefix_append (p q t : Text) : stripPrefix (p ++ q) (p ++ t) = stripPrefix q t := by
  induction p with
  | nil => rfl
  | cons c p ih => exact (if_pos rfl).trans ih

theorem control_join {l : List Text} (h : ∀ f ∈ l, ∀ c ∈ f, isControl c = false) :
    ∀ c ∈ joinFields l, isControl c = false := by
  induction l with
  | nil => exact nofun
  | cons f l ih =>
    cases l with
    | nil => simpa using h
    | cons g l =>
      intro c hc
      rw [joinFields_cons₂, List.mem_append, List.mem_cons] at hc
      rcases hc with hc | rfl | hc
      · exact h f List.mem_cons_self c hc
      · decide
      · exact ih (fun f hf => h f (List.mem_cons_of_mem _ hf)) c hc

theorem uncontrolled {t : Text} (h : t.any isControl = false) : ∀ c ∈ t, isControl c = false :=
  fun c hc => by simpa using List.any_eq_false.mp h c hc

/-- The transaction whose payload has these fields. -/
def carrier (fields : List Text) : Transaction :=
  ⟨[], some ("kchat:1:".toList ++ joinFields fields), none⟩

theorem carrier_action {word : Text} {fields : List Text} {action : KAction}
    (hword : word ∈ ["broadcast".toList, "quote".toList, "vote".toList])
    (hfields : ∀ f ∈ fields, Plain f ∨ f = "downvote".toList)
    (hparse : parseParts env (word :: fields) = .ok action) :
    (carrier (word :: fields)).action env = some action := by
  have hplain : ∀ f ∈ word :: fields, ':' ∉ f ∧ ∀ c ∈ f, isControl c = false := by
    intro f hf
    rcases List.mem_cons.mp hf with rfl | hf
    · refine ⟨?_, uncontrolled ?_⟩ <;>
        rcases List.mem_cons.mp hword with rfl | hword
      · decide
      · rcases List.mem_pair.mp hword with rfl | rfl <;> decide
      · decide
      · rcases List.mem_pair.mp hword with rfl | rfl <;> decide
    · rcases hfields f hf with h | rfl
      · exact ⟨h.colon, h.control⟩
      · exact ⟨by decide, uncontrolled (by decide)⟩
  have hclean : cleanedPayload ("kchat:1:".toList ++ joinFields (word :: fields)) =
      "kchat:1:".toList ++ joinFields (word :: fields) := by
    refine List.filter_eq_self.mpr fun c hc => ?_
    have hc' : isControl c = false := by
      rcases List.mem_append.mp hc with hc | hc
      · exact uncontrolled (t := "kchat:1:".toList) (by decide) c hc
      · exact control_join (fun f hf => (hplain f hf).2) c hc
    rw [hc']
    rfl
  have hbcast : stripPrefix "kchat:1:bcast:".toList
      ("kchat:1:".toList ++ joinFields (word :: fields)) = none := by
    rw [show "kchat:1:bcast:".toList = "kchat:1:".toList ++ "bcast:".toList from rfl,
      stripPrefix_append]
    have hjoin : ∃ rest, joinFields (word :: fields) = word ++ rest := by
      cases fields with
      | nil => exact ⟨[], by simp⟩
      | cons f fields => exact ⟨_, joinFields_cons₂ word f fields⟩
    obtain ⟨rest, hrest⟩ := hjoin
    rw [hrest]
    simp only [List.mem_cons, List.not_mem_nil, or_false] at hword
    rcases hword with rfl | rfl | rfl <;> rfl
  have hrest : parseKProtocolPayload env ("kchat:1:".toList ++ joinFields (word :: fields)) =
      .ok action := by
    have hstrip := stripPrefix_append "kchat:1:".toList [] (joinFields (word :: fields))
    rw [List.append_nil] at hstrip
    rw [parseKProtocolPayload, hstrip]
    show parseParts env ((joinFields (word :: fields)).splitOn ':') = _
    rw [splitOn_join (fun f hf => (hplain f hf).1) (List.cons_ne_nil _ _), hparse]
  show (if _ then none else _) = some action
  rw [if_neg, hclean, hrest]
  rw [hbcast]
  rintro (h | h) <;> cases h

/-! ## What passes its checks stores -/

theorem insertUsed_free {signature id : Bytes} {db : Db} (h : db.usedSignatures = []) :
    (db.insertUsed signature id).2 = { db with usedSignatures := [(signature, id)] } := by
  simp [Db.insertUsed, Db.usedBy, h]

theorem broadcast_stores {k : KBroadcast} (haction : transaction.action env = some (.broadcast k))
    (hchecked : Checked (.broadcast k)) (hverifies : Verifies env (.broadcast k)) :
    Stores env outputs transaction := by
  obtain ⟨key, hkey, hkeyed⟩ := hverifies
  obtain rfl := Option.some.inj hkey
  have hverify : verifyKaspaSignature env (KAction.broadcast k).signingString k.senderSignature
      k.senderPubkey = true := hkeyed
  obtain ⟨sig, sender, hsig, hsender⟩ := verify_decodes hverify
  refine ⟨Db.empty, fun hsame => ?_⟩
  rw [process_alone outputs haction rfl rfl, processAction, saveKBroadcastToDatabase,
    if_neg (by simpa using hchecked.1)] at hsame
  rw [checked_alone hverify hsig (owned_of_unused rfl), insertUsed_free rfl] at hsame
  simp [hsender, hsig, storeBroadcast, Db.broadcastReplay, Db.replacedProfiles, Db.empty,
    execute, Db.commitBroadcast, Db.recordBroadcastSignature, tables] at hsame

theorem quote_stores {k : KQuote} (haction : transaction.action env = some (.quote k))
    (hchecked : Checked (.quote k)) (hverifies : Verifies env (.quote k)) :
    Stores env outputs transaction := by
  obtain ⟨key, hkey, hkeyed⟩ := hverifies
  obtain rfl := Option.some.inj hkey
  have hverify : verifyKaspaSignature env (KAction.quote k).signingString k.senderSignature
      k.senderPubkey = true := hkeyed
  obtain ⟨hcontent, hmentioned, hmessage⟩ := hchecked
  obtain ⟨sig, sender, hsig, hsender⟩ := verify_decodes hverify
  obtain ⟨content, hcontent⟩ := Option.isSome_iff_exists.mp hcontent
  obtain ⟨mentioned, hmentioned⟩ := Option.isSome_iff_exists.mp hmentioned
  refine ⟨Db.empty, fun hsame => ?_⟩
  rw [process_alone outputs haction rfl rfl, processAction, saveUnlessDeleted_alone] at hsame
  have hlook : ((deletedByAuthor transaction k.senderPubkey).alone Db.empty).1 = false := by
    simp [deletedByAuthor, hsender, query, Db.hasTombstone, Db.empty]
  rw [hlook, if_neg Bool.false_ne_true, saveKQuoteToDatabase] at hsame
  rw [checked_alone hverify hsig (owned_of_unused rfl), insertUsed_free rfl, if_neg (by simpa using hmessage)] at hsame
  simp [hsender, hsig, hcontent, hmentioned, contentRow, stmt, Db.insertContent, dropIfDeleted,
    deletedByAuthor, query, Db.hasTombstone, Db.empty, tables] at hsame

theorem vote_stores {k : KVote} (haction : transaction.action env = some (.vote k))
    (hchecked : Checked (.vote k)) (hvote : k.vote ≠ "unvote".toList)
    (hverifies : Verifies env (.vote k)) : Stores env outputs transaction := by
  obtain ⟨key, hkey, hkeyed⟩ := hverifies
  obtain rfl := Option.some.inj hkey
  have hverify : verifyKaspaSignature env (KAction.vote k).signingString k.senderSignature
      k.senderPubkey = true := hkeyed
  obtain ⟨hpost, -, hmentioned⟩ := hchecked
  obtain ⟨sig, sender, hsig, hsender⟩ := verify_decodes hverify
  obtain ⟨post, hpost⟩ := Option.isSome_iff_exists.mp hpost
  obtain ⟨mentioned, hmentioned⟩ := Option.isSome_iff_exists.mp (hmentioned hvote)
  let target : Content := ⟨post, 0, [], [], [], .post, none, none⟩
  refine ⟨{ Db.empty with contents := [target] }, fun hsame => ?_⟩
  rw [process_alone outputs haction rfl rfl, processAction, saveKVoteToDatabase] at hsame
  rw [checked_alone hverify hsig (owned_of_unused rfl), insertUsed_free rfl] at hsame
  simp only [hsender, hpost, hsig, hmentioned] at hsame
  rw [if_neg hvote] at hsame
  simp [storeVote, Db.content, Db.replacedVotes, Db.commitVote, Db.empty, execute, tables, target]
    at hsame

/-! ## Separation -/

/-- A quote or a vote whose fields are those of a profile, or a profile whose fields are those of a
quote or of a downvote. -/
def Confusable : KAction → Prop
  | .quote k => (validateKProfile k.contentId (some k.base64EncodedMessage) k.mentionedPubkey).isOk =
      true
  | .vote k => (validateKProfile k.postId (some k.vote) k.mentionedPubkey).isOk = true
  | .broadcast k => (hexDecode k.base64EncodedNickname).isSome ∧
      (hexDecode k.base64EncodedMessage).isSome ∧ ∃ image, k.base64EncodedProfileImage = some image ∧
      ((validateKachatMessage image).isOk = true ∨ image = "downvote".toList)
  | _ => False

theorem message_ne_nil {t : Text} (h : (validateKachatMessage t).isOk = true) : t ≠ [] := by
  rintro rfl
  cases h

theorem image_of_getD {image : Option Text} {t : Text} (h : image.getD [] = t) (ht : t ≠ []) :
    image = some t := by
  cases image with
  | none => exact absurd h.symm ht
  | some i => exact congrArg some h

theorem quote_broadcast {q : KQuote} {b : KBroadcast} (hq : Checked (.quote q))
    (hb : Checked (.broadcast b))
    (hsame : (KAction.quote q).signingString = (KAction.broadcast b).signingString) :
    Confusable (.quote q) ∧ Confusable (.broadcast b) := by
  have hfields := (domain_quote hq).1.symm.trans ((congrArg (List.splitOn ':') hsame).trans
    (domain_broadcast hb).1)
  obtain ⟨hcontent, hmessage, hmentioned⟩ : q.contentId = b.base64EncodedNickname ∧
      q.base64EncodedMessage = b.base64EncodedProfileImage.getD [] ∧
      q.mentionedPubkey = b.base64EncodedMessage := by simpa using hfields
  have himage := image_of_getD hmessage.symm (message_ne_nil hq.2.2)
  obtain ⟨hhex, hhex', hvalid⟩ := hq
  refine ⟨?_, hcontent ▸ hhex, hmentioned ▸ hhex', _, himage, .inl hvalid⟩
  show (validateKProfile q.contentId (some q.base64EncodedMessage) q.mentionedPubkey).isOk = true
  rw [hcontent, hmentioned, ← himage]
  exact hb.1

theorem vote_broadcast {v : KVote} {b : KBroadcast} (hv : Checked (.vote v))
    (hb : Checked (.broadcast b))
    (hsame : (KAction.vote v).signingString = (KAction.broadcast b).signingString) :
    Confusable (.vote v) ∧ Confusable (.broadcast b) := by
  have hfields := (domain_vote hv).1.symm.trans ((congrArg (List.splitOn ':') hsame).trans
    (domain_broadcast hb).1)
  obtain ⟨hpost, hvote, hsplit⟩ : v.postId = b.base64EncodedNickname ∧
      v.vote = b.base64EncodedProfileImage.getD [] ∧
      v.mentionedPubkey.splitOn ':' = [b.base64EncodedMessage] := by simpa using hfields
  have hmentioned : v.mentionedPubkey = b.base64EncodedMessage := by
    have hjoin : joinFields (v.mentionedPubkey.splitOn ':') = v.mentionedPubkey :=
      List.intercalate_splitOn ':'
    rw [hsplit] at hjoin
    exact hjoin.symm.trans (joinFields_singleton _)
  obtain ⟨hhex, hword, hhex'⟩ := hv
  have himage : b.base64EncodedProfileImage = some v.vote := by
    refine image_of_getD hvote.symm fun hnil => ?_
    rw [hnil] at hword
    exact absurd hword (by decide)
  have hdown : v.vote = "downvote".toList := by
    obtain ⟨-, hbase, -⟩ := profile_fields hb.1
    have hsome := hbase _ himage
    simp only [voteWords, List.mem_cons, List.not_mem_nil, or_false] at hword
    rcases hword with h | h | h
    · rw [h] at hsome
      exact absurd hsome (by decide)
    · exact h
    · rw [h] at hsome
      exact absurd hsome (by decide)
  have hhex'' : (hexDecode v.mentionedPubkey).isSome := hhex' (by rw [hdown]; decide)
  refine ⟨?_, hpost ▸ hhex, hmentioned ▸ hhex'', _, himage, .inr hdown⟩
  show (validateKProfile v.postId (some v.vote) v.mentionedPubkey).isOk = true
  rw [hpost, hmentioned, ← himage]
  exact hb.1

theorem quote_vote {q : KQuote} {v : KVote} (hq : Checked (.quote q)) (hv : Checked (.vote v)) :
    (KAction.quote q).signingString ≠ (KAction.vote v).signingString := by
  intro hsame
  have hfields := (domain_quote hq).1.symm.trans ((congrArg (List.splitOn ':') hsame).trans
    (domain_vote hv).1)
  obtain ⟨-, hmessage, -⟩ : q.contentId = v.postId ∧ q.base64EncodedMessage = v.vote ∧
      [q.mentionedPubkey] = v.mentionedPubkey.splitOn ':' := by simpa using hfields
  exact message_ne_vote hq.2.2 (hmessage ▸ hv.2.1)

theorem triple_kinds {k k' : Kind} (h : kindDomain k = kindDomain k') (hne : k ≠ k') :
    kindDomain k = .triple := by
  cases k <;> cases k' <;> first | rfl | exact absurd rfl hne | cases h

/-- Two kinds of action that sign one string: the first is confusable. -/
theorem confusable_of_same {action action' : KAction} (h : Checked action) (h' : Checked action')
    (hkind : action'.kind ≠ action.kind) (hsame : action'.signingString = action.signingString) :
    Confusable action := by
  have hdomain : kindDomain action.kind = kindDomain action'.kind := by
    rw [← domain_signingString h, ← domain_signingString h', hsame]
  have htriple := triple_kinds hdomain hkind.symm
  have htriple' := hdomain ▸ htriple
  cases action with
  | quote q =>
    cases action' with
    | quote => exact absurd rfl hkind
    | vote v => exact absurd hsame.symm (quote_vote h h')
    | broadcast b => exact (quote_broadcast h h' hsame.symm).1
    | _ => cases htriple'
  | vote v =>
    cases action' with
    | quote q => exact absurd hsame (quote_vote h' h)
    | vote => exact absurd rfl hkind
    | broadcast b => exact (vote_broadcast h h' hsame.symm).1
    | _ => cases htriple'
  | broadcast b =>
    cases action' with
    | quote q => exact (quote_broadcast h' h hsame).2
    | vote v => exact (vote_broadcast h' h hsame).2
    | broadcast => exact absurd rfl hkind
    | _ => cases htriple'
  | _ => cases htriple

/-- A verified signature is one of hex fields. -/
theorem Verifies.plain {action : KAction} (h : Verifies env action) :
    ∃ key, actionSenderPubkey action = some key ∧ Plain key ∧ Plain action.senderSignature := by
  obtain ⟨key, hkey, hverify⟩ := h
  obtain ⟨sig, pk, hsig, hpk⟩ := verify_decodes hverify
  exact ⟨key, hkey, .inl (by simp [hpk]), .inl (by simp [hsig])⟩

/-- A confusable action has a transaction of another kind that signs the same string with the same
key and changes the tables too. -/
theorem confused (outputs : Bytes → Option (Option (List TxOutput))) {action : KAction} (h : Checked action) (hverifies : Verifies env action)
    (hconf : Confusable action) :
    ∃ tx action', tx.action env = some action' ∧ Stores env outputs tx ∧
      action'.kind ≠ action.kind ∧ action'.signingString = action.signingString := by
  obtain ⟨key, hkey, hplainKey, hplainSig⟩ := hverifies.plain
  cases action with
  | quote q =>
    obtain rfl := Option.some.inj hkey
    obtain ⟨hcontent, hmentioned, hmessage⟩ := h
    have hne := message_ne_nil hmessage
    let b : KBroadcast := ⟨q.senderPubkey, q.senderSignature, q.contentId,
      some q.base64EncodedMessage, q.mentionedPubkey⟩
    have hparse : (carrier ["broadcast".toList, q.senderPubkey, q.senderSignature, q.contentId,
        q.base64EncodedMessage, q.mentionedPubkey]).action env = some (.broadcast b) := by
      refine carrier_action (by simp) ?_ ?_
      · simp only [List.mem_cons, List.not_mem_nil, or_false, forall_eq_or_imp, forall_eq]
        exact ⟨.inl hplainKey, .inl hplainSig, .inl (.inl hcontent),
          .inl (.inr (message_base64 hmessage)), .inl (.inl hmentioned)⟩
      · show Except.ok (KAction.broadcast ⟨_, _, _, if _ = [] then none else _, _⟩) = _
        rw [if_neg hne]
    refine ⟨_, .broadcast b, hparse, ?_, nofun, rfl⟩
    exact broadcast_stores hparse ⟨hconf, fun heq => hne (Option.some.inj heq)⟩ hverifies
  | vote v =>
    obtain rfl := Option.some.inj hkey
    obtain ⟨hpost, hword, hmentioned⟩ := h
    obtain ⟨-, hbase, hmessage⟩ := profile_fields hconf
    have hvote := hbase _ rfl
    have hne : v.vote ≠ [] := fun hnil => absurd (hnil ▸ hword) (by decide)
    let b : KBroadcast := ⟨v.senderPubkey, v.senderSignature, v.postId, some v.vote,
      v.mentionedPubkey⟩
    have hparse : (carrier ["broadcast".toList, v.senderPubkey, v.senderSignature, v.postId,
        v.vote, v.mentionedPubkey]).action env = some (.broadcast b) := by
      refine carrier_action (by simp) ?_ ?_
      · simp only [List.mem_cons, List.not_mem_nil, or_false, forall_eq_or_imp, forall_eq]
        exact ⟨.inl hplainKey, .inl hplainSig, .inl (.inl hpost), .inl (.inr hvote),
          .inl (.inr hmessage)⟩
      · show Except.ok (KAction.broadcast ⟨_, _, _, if _ = [] then none else _, _⟩) = _
        rw [if_neg hne]
    refine ⟨_, .broadcast b, hparse, ?_, nofun, rfl⟩
    exact broadcast_stores hparse ⟨hconf, fun heq => hne (Option.some.inj heq)⟩ hverifies
  | broadcast b =>
    obtain rfl := Option.some.inj hkey
    obtain ⟨hnickname, hmessage, image, himage, himage'⟩ := hconf
    have hsigned : ∀ s : Text, s = joinFields [b.base64EncodedNickname, image,
        b.base64EncodedMessage] → s = (KAction.broadcast b).signingString := by
      rintro s rfl
      show _ = joinFields [_, b.base64EncodedProfileImage.getD [], _]
      rw [himage]
      rfl
    rcases himage' with hvalid | hdown
    · let q : KQuote := ⟨b.senderPubkey, b.senderSignature, b.base64EncodedNickname, image,
        b.base64EncodedMessage⟩
      have hparse : (carrier ["quote".toList, b.senderPubkey, b.senderSignature,
          b.base64EncodedNickname, image, b.base64EncodedMessage]).action env = some (.quote q) := by
        refine carrier_action (by simp) ?_ rfl
        simp only [List.mem_cons, List.not_mem_nil, or_false, forall_eq_or_imp, forall_eq]
        exact ⟨.inl hplainKey, .inl hplainSig, .inl (.inl hnickname),
          .inl (.inr (message_base64 hvalid)), .inl (.inl hmessage)⟩
      have hsame := hsigned (KAction.quote q).signingString rfl
      refine ⟨_, .quote q, hparse, ?_, nofun, hsame⟩
      refine quote_stores hparse ⟨hnickname, hmessage, hvalid⟩ ?_
      rw [Verifies, hsame]
      exact hverifies
    · subst hdown
      let v : KVote := ⟨b.senderPubkey, b.senderSignature, b.base64EncodedNickname,
        "downvote".toList, b.base64EncodedMessage⟩
      have hparse : (carrier ["vote".toList, b.senderPubkey, b.senderSignature,
          b.base64EncodedNickname, "downvote".toList, b.base64EncodedMessage]).action env =
          some (.vote v) := by
        refine carrier_action (by simp) ?_ rfl
        simp only [List.mem_cons, List.not_mem_nil, or_false, forall_eq_or_imp, forall_eq]
        exact ⟨.inl hplainKey, .inl hplainSig, .inl (.inl hnickname), .inr trivial,
          .inl (.inl hmessage)⟩
      have hword : "downvote".toList ∈ voteWords := by decide
      have hne : "downvote".toList ≠ "unvote".toList := by decide
      have hsame := hsigned (KAction.vote v).signingString rfl
      refine ⟨_, .vote v, hparse, ?_, nofun, hsame⟩
      refine vote_stores hparse ⟨hnickname, hword, fun _ => hmessage⟩ hne ?_
      rw [Verifies, hsame]
      exact hverifies
  | _ => exact hconf.elim

/-- No transaction of another kind signs the string of a transaction, unless its fields are those of
a quote or downvote and of a profile at once. -/
theorem signed_string_separates_iff {action : KAction}
    (haction : transaction.action env = some action) (hstores : Stores env outputs transaction) :
    (∀ tx action', tx.action env = some action' → Stores env outputs tx →
      action'.kind ≠ action.kind → action'.signingString ≠ action.signingString) ↔
      ¬ Confusable action := by
  obtain ⟨hchecked, hverifies⟩ := stores_passes haction hstores
  refine ⟨fun hall hconf => ?_, fun hconf tx action' hact hst hkind hsame => hconf ?_⟩
  · obtain ⟨tx, action', hact, hst, hkind, hsame⟩ :=
      confused outputs hchecked hverifies hconf
    exact hall tx action' hact hst hkind hsame
  · exact confusable_of_same hchecked (stores_passes hact hst).1 hkind hsame

/-- Fields that are those of a quote and of a profile: a content id that is the base64 of a text, the
message of a marker alone, a key. -/
def ambiguousFields : List Text :=
  [sampleKey '2' '1', sampleSignature 'a', (List.replicate 16 "a000".toList).flatten, "4oGg".toList,
    List.replicate 64 '1']

def ambiguousQuote : KQuote :=
  ⟨sampleKey '2' '1', sampleSignature 'a', (List.replicate 16 "a000".toList).flatten, "4oGg".toList,
    List.replicate 64 '1'⟩

def ambiguousBroadcast : KBroadcast :=
  ⟨sampleKey '2' '1', sampleSignature 'a', (List.replicate 16 "a000".toList).flatten,
    some "4oGg".toList, List.replicate 64 '1'⟩

theorem ambiguousQuote_stores :
    (sample 1 5 ("quote".toList :: ambiguousFields)).action sampleEnv =
      some (.quote ambiguousQuote) ∧
    Stores sampleEnv noOutputs (sample 1 5 ("quote".toList :: ambiguousFields)) := by
  have haction : (sample 1 5 ("quote".toList :: ambiguousFields)).action sampleEnv =
      some (.quote ambiguousQuote) := by decide +kernel
  refine ⟨haction, quote_stores haction ?_ ⟨_, rfl, by decide +kernel⟩⟩
  exact ⟨by decide +kernel, by decide +kernel, by decide +kernel⟩

/-- One signature serves a quote and a profile broadcast. -/
theorem quote_signs_as_broadcast : ∃ tx tx' action action',
    tx.action sampleEnv = some action ∧ tx'.action sampleEnv = some action' ∧
    Stores sampleEnv noOutputs tx ∧ Stores sampleEnv noOutputs tx' ∧
    action.kind ≠ action'.kind ∧ action.senderSignature = action'.senderSignature ∧
    action.signingString = action'.signingString := by
  have haction : (sample 2 6 ("broadcast".toList :: ambiguousFields)).action sampleEnv =
      some (.broadcast ambiguousBroadcast) := by decide +kernel
  refine ⟨_, _, _, _, ambiguousQuote_stores.1, haction, ambiguousQuote_stores.2, ?_, nofun, rfl, rfl⟩
  refine broadcast_stores haction ⟨?_, nofun⟩ ⟨_, rfl, ?_⟩ <;> decide +kernel

theorem signed_string_separates_quote :
    (∀ tx action', tx.action sampleEnv = some action' → Stores sampleEnv noOutputs tx →
      action'.kind ≠ .quote → action'.signingString ≠ (KAction.quote ambiguousQuote).signingString) ↔
      ¬ Confusable (.quote ambiguousQuote) :=
  signed_string_separates_iff ambiguousQuote_stores.1 ambiguousQuote_stores.2

end KaChatIndexer.KaSeparation

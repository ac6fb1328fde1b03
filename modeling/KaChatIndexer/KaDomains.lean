import KaChatIndexer.KaSample

/-!
# Domains of the signed strings

The kind of an action can be read off its signed string, but for quotes, votes and profile
broadcasts: all three sign three fields, and a broadcast's fields may be those of a quote or of a
downvote.
-/
namespace KaChatIndexer.KaDomains
open ByteStrings KaText KaActions KaStore KaHandlers KaSample Interleaving Interleaving.Prog

/-- The checks on an action's fields without which it stores nothing. -/
def Checked : KAction → Prop
  | .broadcast k => (validateKProfile k.base64EncodedNickname k.base64EncodedProfileImage
      k.base64EncodedMessage).isOk = true ∧ k.base64EncodedProfileImage ≠ some []
  | .post k => (validateKachatMessage k.base64EncodedMessage).isOk = true
  | .reply k => (hexDecode k.postId).isSome ∧
      (validateKachatMessage k.base64EncodedMessage).isOk = true
  | .vote k => (hexDecode k.postId).isSome ∧ k.vote ∈ voteWords ∧
      (k.vote ≠ "unvote".toList → (hexDecode k.mentionedPubkey).isSome)
  | .block k => (k.blockingAction = "block".toList ∨ k.blockingAction = "unblock".toList) ∧
      (hexDecode k.blockedUserPubkey).isSome
  | .quote k => (hexDecode k.contentId).isSome ∧ (hexDecode k.mentionedPubkey).isSome ∧
      (validateKachatMessage k.base64EncodedMessage).isOk = true
  | .follow k => (k.followingAction = "follow".toList ∨ k.followingAction = "unfollow".toList) ∧
      (hexDecode k.followedUserPubkey).isSome
  | .unquote k => (hexDecode k.contentId).isSome
  | .edit k => (hexDecode k.postId).isSome ∧
      (validateKachatMessage k.base64EncodedMessage).isOk = true
  | .delete k => (hexDecode k.postId).isSome
  | .poll k => (validateKachatMessage k.base64EncodedQuestion).isOk = true
  | .pollVote k => (hexDecode k.pollId).isSome
  | .tip k => (hexDecode k.postId).isSome
  | .unknown _ => False

inductive Domain where
  | post | reply | block | follow | unquote | edit | delete | poll | pollVote | tip | triple | other
  deriving DecidableEq

/-- The domain of the fields of a signed string. -/
def fieldsDomain : List Text → Domain
  | [_] => .unquote
  | [f, g] =>
    if g.head? = some '[' then .post
    else if f = "block".toList ∨ f = "unblock".toList then .block
    else if f = "follow".toList ∨ f = "unfollow".toList then .follow
    else if f = "delete".toList then .delete
    else .other
  | f :: g :: h :: more =>
    if g.head? = some '[' then .post
    else if g ∈ voteWords then .triple
    else if f = "edit".toList ∧ more ≠ [] then .edit
    else if f = "poll".toList then .poll
    else if f = "pollvote".toList then .pollVote
    else if f = "tip".toList then .tip
    else if h.head? = some '[' then .reply
    else .triple
  | [] => .other

def domain (signed : Text) : Domain := fieldsDomain (signed.splitOn ':')

def kindDomain : Kind → Domain
  | .broadcast | .quote | .vote => .triple
  | .post => .post
  | .reply => .reply
  | .block => .block
  | .follow => .follow
  | .unquote => .unquote
  | .edit => .edit
  | .delete => .delete
  | .poll => .poll
  | .pollVote => .pollVote
  | .tip => .tip
  | .unknown => .other

/-! ## Fields -/

theorem colon_of_hex {t : Text} (h : (hexDecode t).isSome) : ':' ∉ t :=
  (Option.isSome_iff_exists.mp h).elim fun _ hb => colon_hex hb

theorem colon_of_base64 {t : Text} (h : (base64Decode t).isSome) : ':' ∉ t :=
  (Option.isSome_iff_exists.mp h).elim fun _ hb => colon_base64 hb

theorem bracket_hex {t : Text} (h : (hexDecode t).isSome) : t.head? ≠ some '[' := by
  obtain ⟨b, hb⟩ := Option.isSome_iff_exists.mp h
  exact fun hc => absurd (hexDecode_chars hb _ (List.mem_of_head? hc)) (by decide)

theorem bracket_base64 {t : Text} (h : (base64Decode t).isSome) : t.head? ≠ some '[' := by
  obtain ⟨b, hb⟩ := Option.isSome_iff_exists.mp h
  exact fun hc => absurd (base64Decode_chars hb _ (List.mem_of_head? hc)) (by decide)

theorem ne_of_hex {t word : Text} (h : (hexDecode t).isSome) (hword : hexDecode word = none) :
    t ≠ word := by
  rintro rfl
  simp [hword] at h

/-- The words that begin the signed strings of longer actions. -/
def literals : List Text := ["edit".toList, "poll".toList, "pollvote".toList, "tip".toList]

theorem literal_of_hex {t : Text} (h : (hexDecode t).isSome) : t ∉ literals := fun hmem =>
  ne_of_hex h ((show ∀ word ∈ literals, hexDecode word = none by decide) t hmem) rfl

theorem message_base64 {t : Text} (h : (validateKachatMessage t).isOk = true) :
    (base64Decode t).isSome := by
  unfold validateKachatMessage at h
  split at h
  · cases h
  · next hb => simp [hb]

theorem message_ne_vote {t : Text} (h : (validateKachatMessage t).isOk = true) :
    t ∉ voteWords := by
  intro hmem
  have hwords : ∀ word ∈ voteWords, (validateKachatMessage word).isOk = false := by
    decide +kernel
  rw [hwords t hmem] at h
  cases h

theorem profile_fields {nickname message : Text} {image : Option Text}
    (h : (validateKProfile nickname image message).isOk = true) :
    (∃ bytes name, base64Decode nickname = some bytes ∧ utf8Decode bytes = some name) ∧
      (∀ i, image = some i → (base64Decode i).isSome) ∧ (base64Decode message).isSome := by
  unfold validateKProfile at h
  split at h
  · cases h
  · next bytes hbytes =>
    split at h
    · cases h
    · next name hname =>
      split_ifs at h with h₁ h₂ h₃ h₄
      · cases h
      · cases h
      · cases h
      · cases h
      · refine ⟨⟨bytes, name, hbytes, hname⟩, fun i hi => ?_, ?_⟩
        · simpa [hi, Option.isSome_iff_ne_none] using h₃
        · simpa [Option.isSome_iff_ne_none] using h₄

theorem jsonArray_split (l : List Text) :
    ∃ f fs, (jsonArray l).splitOn ':' = ('[' :: f) :: fs := splitOn_head (by decide) _

theorem split₂ {f : Text} (hf : ':' ∉ f) (g : Text) (l : List Text) :
    (joinFields (f :: g :: l)).splitOn ':' = f :: (joinFields (g :: l)).splitOn ':' := by
  rw [joinFields_cons₂, List.splitOn_append_cons_self_of_not_mem hf]

theorem split₁ {f : Text} (hf : ':' ∉ f) : (joinFields [f]).splitOn ':' = [f] := by
  rw [joinFields_singleton, List.splitOn_eq_singleton hf]

/-! ## The domain of each kind -/

theorem fieldsDomain_short {f g h : Text} {more : List Text} (hf : f ∉ literals)
    (hg : g.head? ≠ some '[') (hvote : g ∉ voteWords) :
    fieldsDomain (f :: g :: h :: more) = if h.head? = some '[' then .reply else .triple := by
  simp only [literals, List.mem_cons, List.not_mem_nil, not_or, or_false] at hf
  obtain ⟨hedit, hpoll, hpollVote, htip⟩ := hf
  simp only [fieldsDomain]
  rw [if_neg hg, if_neg hvote, if_neg fun hc => hedit hc.1, if_neg hpoll, if_neg hpollVote,
    if_neg htip]

theorem domain_post {k : KPost} (h : Checked (.post k)) :
    domain (KAction.post k).signingString = .post := by
  obtain ⟨f, fs, hjson⟩ := jsonArray_split k.mentionedPubkeys
  have hsplit : (KAction.post k).signingString.splitOn ':' =
      k.base64EncodedMessage :: ('[' :: f) :: fs := by
    rw [KAction.signingString, split₂ (colon_of_base64 (message_base64 h)), joinFields_singleton,
      hjson]
  rw [domain, hsplit]
  cases fs <;> rfl

theorem domain_reply {k : KReply} (h : Checked (.reply k)) :
    domain (KAction.reply k).signingString = .reply := by
  obtain ⟨hpost, hmessage⟩ := h
  have hbase := message_base64 hmessage
  obtain ⟨f, fs, hjson⟩ := jsonArray_split k.mentionedPubkeys
  have hsplit : (KAction.reply k).signingString.splitOn ':' =
      k.postId :: k.base64EncodedMessage :: ('[' :: f) :: fs := by
    rw [KAction.signingString, split₂ (colon_of_hex hpost), split₂ (colon_of_base64 hbase),
      joinFields_singleton, hjson]
  rw [domain, hsplit, fieldsDomain_short (literal_of_hex hpost) (bracket_base64 hbase)
    (message_ne_vote hmessage)]
  rfl

theorem domain_quote {k : KQuote} (h : Checked (.quote k)) :
    (KAction.quote k).signingString.splitOn ':' =
        [k.contentId, k.base64EncodedMessage, k.mentionedPubkey] ∧
      domain (KAction.quote k).signingString = .triple := by
  obtain ⟨hcontent, hmentioned, hmessage⟩ := h
  have hbase := message_base64 hmessage
  have hsplit : (KAction.quote k).signingString.splitOn ':' =
      [k.contentId, k.base64EncodedMessage, k.mentionedPubkey] := by
    rw [KAction.signingString, split₂ (colon_of_hex hcontent), split₂ (colon_of_base64 hbase),
      split₁ (colon_of_hex hmentioned)]
  refine ⟨hsplit, ?_⟩
  rw [domain, hsplit, fieldsDomain_short (literal_of_hex hcontent) (bracket_base64 hbase)
    (message_ne_vote hmessage), if_neg (bracket_hex hmentioned)]

theorem vote_word {word : Text} (h : word ∈ voteWords) : ':' ∉ word ∧ word.head? ≠ some '[' :=
  (show ∀ word ∈ voteWords, ':' ∉ word ∧ word.head? ≠ some '[' by decide) word h

theorem domain_vote {k : KVote} (h : Checked (.vote k)) :
    (KAction.vote k).signingString.splitOn ':' =
        k.postId :: k.vote :: k.mentionedPubkey.splitOn ':' ∧
      domain (KAction.vote k).signingString = .triple := by
  obtain ⟨hpost, hvote, -⟩ := h
  obtain ⟨hcolon, hbracket⟩ := vote_word hvote
  have hsplit : (KAction.vote k).signingString.splitOn ':' =
      k.postId :: k.vote :: k.mentionedPubkey.splitOn ':' := by
    rw [KAction.signingString, split₂ (colon_of_hex hpost), split₂ hcolon, joinFields_singleton]
  refine ⟨hsplit, ?_⟩
  rw [domain, hsplit]
  cases hrest : k.mentionedPubkey.splitOn ':' with
  | nil => exact absurd hrest (List.splitOn_ne_nil ':' _)
  | cons f fs =>
    simp only [fieldsDomain]
    rw [if_neg hbracket, if_pos hvote]

theorem nickname_literal {nickname message : Text} {image : Option Text}
    (h : (validateKProfile nickname image message).isOk = true) :
    nickname ∉ ["poll".toList, "pollvote".toList, "tip".toList] := by
  obtain ⟨⟨bytes, name, hbytes, hname⟩, -⟩ := profile_fields h
  intro hmem
  have hnone : (base64Decode nickname).bind utf8Decode = none :=
    (show ∀ word ∈ ["poll".toList, "pollvote".toList, "tip".toList],
      (base64Decode word).bind utf8Decode = none by decide +kernel) nickname hmem
  rw [hbytes, Option.bind_some, hname] at hnone
  cases hnone

theorem domain_broadcast {k : KBroadcast} (h : Checked (.broadcast k)) :
    (KAction.broadcast k).signingString.splitOn ':' = [k.base64EncodedNickname,
        k.base64EncodedProfileImage.getD [], k.base64EncodedMessage] ∧
      domain (KAction.broadcast k).signingString = .triple := by
  obtain ⟨⟨bytes, name, hnickname, -⟩, himage, hmessage⟩ := profile_fields h.1
  have himage' : (base64Decode (k.base64EncodedProfileImage.getD [])).isSome := by
    cases hi : k.base64EncodedProfileImage with
    | none => rfl
    | some i => exact himage i hi
  have hsplit : (KAction.broadcast k).signingString.splitOn ':' = [k.base64EncodedNickname,
      k.base64EncodedProfileImage.getD [], k.base64EncodedMessage] := by
    rw [KAction.signingString, split₂ (colon_base64 hnickname), split₂ (colon_of_base64 himage'),
      split₁ (colon_of_base64 hmessage)]
  refine ⟨hsplit, ?_⟩
  have hliteral := nickname_literal h.1
  simp only [List.mem_cons, List.not_mem_nil, not_or, or_false] at hliteral
  obtain ⟨hpoll, hpollVote, htip⟩ := hliteral
  have hedit : ¬(k.base64EncodedNickname = "edit".toList ∧ ([] : List Text) ≠ []) :=
    fun hc => hc.2 rfl
  rw [domain, hsplit]
  unfold fieldsDomain
  refine (if_neg (bracket_base64 himage')).trans ?_
  by_cases hvote : k.base64EncodedProfileImage.getD [] ∈ voteWords
  · exact if_pos hvote
  · exact (if_neg hvote).trans <| (if_neg hedit).trans <| (if_neg hpoll).trans <|
      (if_neg hpollVote).trans <| (if_neg htip).trans <| if_neg (bracket_base64 hmessage)

theorem domain_edit {k : KEdit} (h : Checked (.edit k)) :
    domain (KAction.edit k).signingString = .edit := by
  obtain ⟨hpost, hmessage⟩ := h
  obtain ⟨f, fs, hjson⟩ := jsonArray_split k.mentionedPubkeys
  have hsplit : (KAction.edit k).signingString.splitOn ':' =
      "edit".toList :: k.postId :: k.base64EncodedMessage :: ('[' :: f) :: fs := by
    rw [KAction.signingString, split₂ (by decide), split₂ (colon_of_hex hpost),
      split₂ (colon_of_base64 (message_base64 hmessage)), joinFields_singleton, hjson]
  have hvote : k.postId ∉ voteWords := fun hmem =>
    ne_of_hex hpost ((show ∀ word ∈ voteWords, hexDecode word = none by decide) _ hmem) rfl
  rw [domain, hsplit]
  unfold fieldsDomain
  exact (if_neg (bracket_hex hpost)).trans <| (if_neg hvote).trans <|
    if_pos ⟨rfl, List.cons_ne_nil _ _⟩

theorem domain_poll {k : KPoll} (h : Checked (.poll k)) :
    domain (KAction.poll k).signingString = .poll := by
  have hbase := message_base64 h
  have hsplit : ∃ g fs, (KAction.poll k).signingString.splitOn ':' =
      "poll".toList :: k.base64EncodedQuestion :: g :: fs := by
    rw [KAction.signingString, split₂ (by decide), split₂ (colon_of_base64 hbase)]
    cases hrest : (joinFields [k.optionsB64Csv, decimalText k.closesAtMs,
        jsonArray k.mentionedPubkeys]).splitOn ':' with
    | nil => exact absurd hrest (List.splitOn_ne_nil ':' _)
    | cons g fs => exact ⟨g, fs, rfl⟩
  obtain ⟨g, fs, hsplit⟩ := hsplit
  rw [domain, hsplit]
  unfold fieldsDomain
  exact (if_neg (bracket_base64 hbase)).trans <| (if_neg (message_ne_vote h)).trans <|
    (if_neg fun hc => absurd hc.1 (by decide)).trans (if_pos rfl)

/-- What begins with a literal word and goes on with a hex field has that word's domain. -/
theorem domain_literal {word f : Text} {rest : List Text} {d : Domain}
    (hword : word = "pollvote".toList ∧ d = .pollVote ∨ word = "tip".toList ∧ d = .tip)
    (hf : (hexDecode f).isSome) (hrest : rest ≠ []) :
    domain (joinFields (word :: f :: rest)) = d := by
  have hcolon : ':' ∉ word := by rcases hword with ⟨rfl, -⟩ | ⟨rfl, -⟩ <;> decide
  have hvote : f ∉ voteWords := fun hmem =>
    ne_of_hex hf ((show ∀ word ∈ voteWords, hexDecode word = none by decide) _ hmem) rfl
  obtain ⟨g, rest, rfl⟩ := List.exists_cons_of_ne_nil hrest
  rw [domain, split₂ hcolon, split₂ (colon_of_hex hf)]
  cases hsplit : (joinFields (g :: rest)).splitOn ':' with
  | nil => exact absurd hsplit (List.splitOn_ne_nil ':' _)
  | cons h more =>
    simp only [fieldsDomain]
    rw [if_neg (bracket_hex hf), if_neg hvote]
    rcases hword with ⟨rfl, rfl⟩ | ⟨rfl, rfl⟩
    · rw [if_neg fun hc => absurd hc.1 (by decide), if_neg (by decide), if_pos rfl]
    · rw [if_neg fun hc => absurd hc.1 (by decide), if_neg (by decide), if_neg (by decide),
        if_pos rfl]

/-- Two fields, a word and a key. -/
theorem domain_pair {word f : Text} (hword : ':' ∉ word) (hf : (hexDecode f).isSome) :
    domain (joinFields [word, f]) =
      if word = "block".toList ∨ word = "unblock".toList then .block
      else if word = "follow".toList ∨ word = "unfollow".toList then .follow
      else if word = "delete".toList then .delete
      else .other := by
  rw [domain, split₂ hword, split₁ (colon_of_hex hf)]
  simp only [fieldsDomain]
  rw [if_neg (bracket_hex hf)]

/-- The kind of an action that passes its checks can be read off its signed string, up to the three
kinds that sign three fields. -/
theorem domain_signingString {action : KAction} (h : Checked action) :
    domain action.signingString = kindDomain action.kind := by
  cases action with
  | post k => exact domain_post h
  | reply k => exact domain_reply h
  | quote k => exact (domain_quote h).2
  | vote k => exact (domain_vote h).2
  | broadcast k => exact (domain_broadcast h).2
  | edit k => exact domain_edit h
  | poll k => exact domain_poll h
  | pollVote k => exact domain_literal (.inl ⟨rfl, rfl⟩) h (List.cons_ne_nil _ _)
  | tip k => exact domain_literal (.inr ⟨rfl, rfl⟩) h (List.cons_ne_nil _ _)
  | unquote k => rw [domain, KAction.signingString, List.splitOn_eq_singleton (colon_of_hex h)]; rfl
  | delete k =>
    rw [KAction.signingString, domain_pair (by decide) h]
    rfl
  | block k =>
    obtain ⟨hword, hkey⟩ := h
    rw [KAction.signingString, domain_pair (by rcases hword with h | h <;> rw [h] <;> decide) hkey,
      if_pos hword]
    rfl
  | follow k =>
    obtain ⟨hword, hkey⟩ := h
    rw [KAction.signingString, domain_pair (by rcases hword with h | h <;> rw [h] <;> decide) hkey,
      if_neg (by rcases hword with h | h <;> rw [h] <;> decide), if_pos hword]
    rfl
  | unknown => exact h.elim

end KaChatIndexer.KaDomains

import KaChatIndexer.KaText

/-!
# K actions

The thirteen KaPosts actions: how a payload is parsed, the string each action signs, the checks on
messages and profiles, and signature verification. The JSON parser and the Schnorr check are those
of other crates.
-/
namespace KaChatIndexer.KaActions
open ByteStrings KaText

/-- What the processor takes from elsewhere: `serde_json::from_str::<Vec<String>>`, `verify_message`
of a message, a signature and an x-only key, and `is_kaposts_operator`. -/
structure Env where
  fromJson : Text → Option (List Text)
  schnorr : Text → Bytes → Bytes → Bool
  isKapostsOperator : Text → Bool

structure KBroadcast where
  senderPubkey : Text
  senderSignature : Text
  base64EncodedNickname : Text
  base64EncodedProfileImage : Option Text
  base64EncodedMessage : Text
  deriving DecidableEq

structure KPost where
  senderPubkey : Text
  senderSignature : Text
  base64EncodedMessage : Text
  mentionedPubkeys : List Text
  isKchat : Bool
  deriving DecidableEq

structure KReply where
  senderPubkey : Text
  senderSignature : Text
  postId : Text
  base64EncodedMessage : Text
  mentionedPubkeys : List Text
  deriving DecidableEq

structure KVote where
  senderPubkey : Text
  senderSignature : Text
  postId : Text
  vote : Text
  mentionedPubkey : Text
  deriving DecidableEq

structure KBlock where
  senderPubkey : Text
  senderSignature : Text
  blockingAction : Text
  blockedUserPubkey : Text
  deriving DecidableEq

structure KQuote where
  senderPubkey : Text
  senderSignature : Text
  contentId : Text
  base64EncodedMessage : Text
  mentionedPubkey : Text
  deriving DecidableEq

structure KFollow where
  senderPubkey : Text
  senderSignature : Text
  followingAction : Text
  followedUserPubkey : Text
  deriving DecidableEq

structure KUnquote where
  senderPubkey : Text
  senderSignature : Text
  contentId : Text
  deriving DecidableEq

structure KEdit where
  senderPubkey : Text
  senderSignature : Text
  postId : Text
  base64EncodedMessage : Text
  mentionedPubkeys : List Text
  isKchat : Bool
  deriving DecidableEq

structure KDelete where
  senderPubkey : Text
  senderSignature : Text
  postId : Text
  deriving DecidableEq

structure KPoll where
  senderPubkey : Text
  senderSignature : Text
  base64EncodedQuestion : Text
  optionsB64Csv : Text
  closesAtMs : ℤ
  mentionedPubkeys : List Text
  isKchat : Bool
  deriving DecidableEq

structure KPollVote where
  senderPubkey : Text
  senderSignature : Text
  pollId : Text
  optionIndex : ℤ
  deriving DecidableEq

structure KTip where
  senderPubkey : Text
  senderSignature : Text
  postId : Text
  authorPubkey : Text
  sealedHex : Text
  deriving DecidableEq

inductive KAction where
  | broadcast (k : KBroadcast)
  | post (k : KPost)
  | reply (k : KReply)
  | vote (k : KVote)
  | block (k : KBlock)
  | quote (k : KQuote)
  | follow (k : KFollow)
  | unquote (k : KUnquote)
  | edit (k : KEdit)
  | delete (k : KDelete)
  | poll (k : KPoll)
  | pollVote (k : KPollVote)
  | tip (k : KTip)
  | unknown (action : Text)
  deriving DecidableEq

/-- The kinds of action. -/
inductive Kind where
  | broadcast | post | reply | vote | block | quote | follow | unquote | edit | delete | poll
  | pollVote | tip | unknown
  deriving DecidableEq

def KAction.kind : KAction → Kind
  | .broadcast _ => .broadcast
  | .post _ => .post
  | .reply _ => .reply
  | .vote _ => .vote
  | .block _ => .block
  | .quote _ => .quote
  | .follow _ => .follow
  | .unquote _ => .unquote
  | .edit _ => .edit
  | .delete _ => .delete
  | .poll _ => .poll
  | .pollVote _ => .pollVote
  | .tip _ => .tip
  | .unknown _ => .unknown

/-- The author of an action, for the block and mute gate. -/
def actionSenderPubkey : KAction → Option Text
  | .broadcast k => some k.senderPubkey
  | .post k => some k.senderPubkey
  | .reply k => some k.senderPubkey
  | .vote k => some k.senderPubkey
  | .block k => some k.senderPubkey
  | .quote k => some k.senderPubkey
  | .follow k => some k.senderPubkey
  | .unquote k => some k.senderPubkey
  | .edit k => some k.senderPubkey
  | .delete k => some k.senderPubkey
  | .poll k => some k.senderPubkey
  | .pollVote k => some k.senderPubkey
  | .tip k => some k.senderPubkey
  | .unknown _ => none

def KAction.senderSignature : KAction → Text
  | .broadcast k => k.senderSignature
  | .post k => k.senderSignature
  | .reply k => k.senderSignature
  | .vote k => k.senderSignature
  | .block k => k.senderSignature
  | .quote k => k.senderSignature
  | .follow k => k.senderSignature
  | .unquote k => k.senderSignature
  | .edit k => k.senderSignature
  | .delete k => k.senderSignature
  | .poll k => k.senderSignature
  | .pollVote k => k.senderSignature
  | .tip k => k.senderSignature
  | .unknown _ => []

/-- The string that an action signs. -/
def KAction.signingString : KAction → Text
  | .broadcast k => joinFields [k.base64EncodedNickname, k.base64EncodedProfileImage.getD [],
      k.base64EncodedMessage]
  | .post k => joinFields [k.base64EncodedMessage, jsonArray k.mentionedPubkeys]
  | .reply k => joinFields [k.postId, k.base64EncodedMessage, jsonArray k.mentionedPubkeys]
  | .vote k => joinFields [k.postId, k.vote, k.mentionedPubkey]
  | .block k => joinFields [k.blockingAction, k.blockedUserPubkey]
  | .quote k => joinFields [k.contentId, k.base64EncodedMessage, k.mentionedPubkey]
  | .follow k => joinFields [k.followingAction, k.followedUserPubkey]
  | .unquote k => k.contentId
  | .edit k => joinFields ["edit".toList, k.postId, k.base64EncodedMessage,
      jsonArray k.mentionedPubkeys]
  | .delete k => joinFields ["delete".toList, k.postId]
  | .poll k => joinFields ["poll".toList, k.base64EncodedQuestion, k.optionsB64Csv,
      decimalText k.closesAtMs, jsonArray k.mentionedPubkeys]
  | .pollVote k => joinFields ["pollvote".toList, k.pollId, decimalText k.optionIndex]
  | .tip k => joinFields ["tip".toList, k.postId, k.authorPubkey, k.sealedHex]
  | .unknown _ => []

/-! ## Checks -/

def isImageArtGlyph (c : Char) : Bool :=
  (0x2500 ≤ c.toNat && c.toNat ≤ 0x257f) || (0x2580 ≤ c.toNat && c.toNat ≤ 0x259f) ||
    (0x25a0 ≤ c.toNat && c.toNat ≤ 0x25ff) || (0x2800 ≤ c.toNat && c.toNat ≤ 0x28ff) ||
    (0x1fb00 ≤ c.toNat && c.toNat ≤ 0x1fbff)

def minArtGlyphs : ℕ := 30

def artGlyphPercent : ℕ := 30

/-- Whether a text is mostly drawing glyphs. -/
def isImageArt (body : Text) : Bool :=
  let nonWs := body.filter fun c => !isWhitespace c
  let artGlyphs := nonWs.countP isImageArtGlyph
  minArtGlyphs ≤ artGlyphs && 0 < nonWs.length && artGlyphPercent ≤ artGlyphs * 100 / nonWs.length

def maxKNicknameChars : ℕ := 100

def maxKachatMessageChars : ℕ := 25000

/-- U+2060 WORD JOINER. -/
def kachatMarker : Text := [Char.ofNat 0x2060]

def validateKProfile (base64Nickname : Text) (base64ProfileImage : Option Text)
    (base64Message : Text) : Except String Unit :=
  match base64Decode base64Nickname with
  | none => .error "nickname is not valid base64"
  | some bytes =>
    match utf8Decode bytes with
    | none => .error "nickname is not valid UTF-8"
    | some nickname =>
      if Char.ofNat 0 ∈ nickname then .error "nickname contains NUL"
      else if maxKNicknameChars < nickname.length then .error "nickname exceeds max length"
      else if base64ProfileImage.any fun image => (base64Decode image).isNone then
        .error "profile image is not valid base64"
      else if (base64Decode base64Message).isNone then .error "message is not valid base64"
      else .ok ()

/-- The signatures of embedded media, compared in lower case. -/
def mediaSignatures : List Text :=
  [";base64,".toList, "data:image/".toList, "data:video/".toList, "data:audio/".toList,
    "data:application/".toList, "data:text/html".toList]

def validateKachatMessage (base64EncodedMessage : Text) : Except String Unit :=
  match base64Decode base64EncodedMessage with
  | none => .error "invalid base64"
  | some bytes =>
    match utf8Decode bytes with
    | none => .error "not valid UTF-8"
    | some text =>
      match stripPrefix kachatMarker text with
      | none => .error "missing KaChat marker"
      | some body =>
        if maxKachatMessageChars < body.length then .error "message exceeds max length"
        else if mediaSignatures.any (containsText (toAsciiLowercase body)) then
          .error "embedded media / data URI not allowed"
        else if body.any fun c => isControl c && !isTextControl c then
          .error "contains control characters"
        else if isImageArt body then .error "image-like art (drawing glyphs) not allowed"
        else .ok ()

/-- The x-only key of a 33-byte compressed or 32-byte x-only one. -/
def xonly (key : Bytes) : Option Bytes :=
  if key.length = 33 then some (key.drop 1) else if key.length = 32 then some key else none

def verifyKaspaSignature (env : Env) (message signature publicKeyHex : Text) : Bool :=
  match hexDecode signature, (hexDecode publicKeyHex).bind xonly with
  | some signature, some key => signature.length == 64 && env.schnorr message signature key
  | _, _ => false

/-! ## Parsing -/

def invalidFormat (action expected : String) (got : ℕ) : Except String KAction :=
  .error s!"Invalid {action} format: expected {expected} parts, got {got}"

/-- The mentioned keys of an optional JSON field; an error reads as none. -/
def parseMentions (env : Env) (json : Option Text) : List Text := (json.bind env.fromJson).getD []

def parseBroadcast : List Text → Except String KAction
  | pubkey :: signature :: nickname :: image :: message :: _ =>
      .ok (.broadcast ⟨pubkey, signature, nickname, if image = [] then none else some image, message⟩)
  | parts => invalidFormat "broadcast" "6" (parts.length + 1)

def parsePost (env : Env) : List Text → Except String KAction
  | pubkey :: signature :: message :: more =>
      .ok (.post ⟨pubkey, signature, message, parseMentions env more.head?, true⟩)
  | parts => invalidFormat "post" "at least 4" (parts.length + 1)

def parseReply (env : Env) : List Text → Except String KAction
  | pubkey :: signature :: postId :: message :: more =>
      .ok (.reply ⟨pubkey, signature, postId, message, parseMentions env more.head?⟩)
  | parts => invalidFormat "reply" "at least 5" (parts.length + 1)

def voteWords : List Text := ["upvote".toList, "downvote".toList, "unvote".toList]

def parseVote : List Text → Except String KAction
  | pubkey :: signature :: postId :: vote :: mentioned :: _ =>
      if vote ∈ voteWords then .ok (.vote ⟨pubkey, signature, postId, vote, mentioned⟩)
      else
        let got := String.ofList vote
        .error s!"Invalid vote value: expected 'upvote', 'downvote' or 'unvote', got '{got}'"
  | parts => invalidFormat "vote" "6" (parts.length + 1)

def parseBlock : List Text → Except String KAction
  | pubkey :: signature :: action :: blocked :: _ =>
      if action = "block".toList ∨ action = "unblock".toList then
        .ok (.block ⟨pubkey, signature, action, blocked⟩)
      else
        let got := String.ofList action
        .error s!"Invalid blocking_action value: expected 'block' or 'unblock', got '{got}'"
  | parts => invalidFormat "block" "5" (parts.length + 1)

def parseQuote : List Text → Except String KAction
  | pubkey :: signature :: contentId :: message :: mentioned :: _ =>
      .ok (.quote ⟨pubkey, signature, contentId, message, mentioned⟩)
  | parts => invalidFormat "quote" "6" (parts.length + 1)

def parseFollow : List Text → Except String KAction
  | pubkey :: signature :: action :: followed :: _ =>
      if action = "follow".toList ∨ action = "unfollow".toList then
        .ok (.follow ⟨pubkey, signature, action, followed⟩)
      else
        let got := String.ofList action
        .error s!"Invalid following_action value: expected 'follow' or 'unfollow', got '{got}'"
  | parts => invalidFormat "follow" "5" (parts.length + 1)

def parseUnquote : List Text → Except String KAction
  | pubkey :: signature :: contentId :: _ => .ok (.unquote ⟨pubkey, signature, contentId⟩)
  | parts => invalidFormat "unquote" "4" (parts.length + 1)

def parseEdit (env : Env) : List Text → Except String KAction
  | pubkey :: signature :: postId :: message :: more =>
      .ok (.edit ⟨pubkey, signature, postId, message, parseMentions env more.head?, true⟩)
  | parts => invalidFormat "edit" "at least 5" (parts.length + 1)

def parseDelete : List Text → Except String KAction
  | pubkey :: signature :: postId :: _ => .ok (.delete ⟨pubkey, signature, postId⟩)
  | parts => invalidFormat "delete" "4" (parts.length + 1)

def parsePoll (env : Env) : List Text → Except String KAction
  | pubkey :: signature :: question :: options :: closes :: more =>
      match parseI64 closes with
      | none =>
        let got := String.ofList closes
        .error s!"Invalid poll closes_at_ms '{got}'"
      | some closesAt => .ok (.poll ⟨pubkey, signature, question, options, closesAt.toInt,
          parseMentions env more.head?, true⟩)
  | parts => invalidFormat "poll" "at least 6" (parts.length + 1)

def parsePollVote : List Text → Except String KAction
  | pubkey :: signature :: pollId :: index :: _ =>
      match parseI32 index with
      | none =>
        let got := String.ofList index
        .error s!"Invalid pollvote option_index '{got}'"
      | some optionIndex => .ok (.pollVote ⟨pubkey, signature, pollId, optionIndex⟩)
  | parts => invalidFormat "pollvote" "5" (parts.length + 1)

def isHex (t : Text) : Bool := !t.isEmpty && t.all isHexChar

def isLowercaseHex (t : Text) : Bool :=
  !t.isEmpty && t.all fun c => ('0' ≤ c && c ≤ '9') || ('a' ≤ c && c ≤ 'f')

/-- A tip has exactly six fields, all checked here. -/
def parseTipParts : List Text → Except String KAction
  | [pubkey, signature, postId, author, sealedHex] =>
      if pubkey = [] ∨ signature = [] then .error "tip: missing pubkey or signature"
      else if postId.length ≠ 64 ∨ isHex postId = false then
        .error "tip: post_id is not a 64-hex txid"
      else if ¬ (author.length = 66 ∨ author.length = 64) ∨ isHex author = false then
        .error "tip: author_pubkey is not a 66-hex (or 64-hex) key"
      else if isLowercaseHex sealedHex = false ∨ sealedHex.length % 2 ≠ 0 then
        .error "tip: sealed part is not non-empty lowercase hex"
      else .ok (.tip ⟨pubkey, signature, postId, author, sealedHex⟩)
  | parts => invalidFormat "tip" "6" (parts.length + 1)

/-- The parser of an action's fields after its name. -/
def parseParts (env : Env) : List Text → Except String KAction
  | [] => .error "Empty K protocol payload after removing prefix"
  | action :: parts =>
    if action = "broadcast".toList then parseBroadcast parts
    else if action = "post".toList then parsePost env parts
    else if action = "reply".toList then parseReply env parts
    else if action = "vote".toList then parseVote parts
    else if action = "block".toList then parseBlock parts
    else if action = "quote".toList then parseQuote parts
    else if action = "follow".toList then parseFollow parts
    else if action = "unquote".toList then parseUnquote parts
    else if action = "edit".toList then parseEdit env parts
    else if action = "delete".toList then parseDelete parts
    else if action = "poll".toList then parsePoll env parts
    else if action = "pollvote".toList then parsePollVote parts
    else if action = "tip".toList then parseTipParts parts
    else .ok (.unknown action)

def parseKProtocolPayload (env : Env) (payload : Text) : Except String KAction :=
  match stripPrefix "kchat:1:".toList payload with
  | none => .error
      "Not a canonical KaChat (kchat:1:) payload — foreign/legacy prefix, not indexed"
  | some rest => parseParts env (rest.splitOn ':')

/-- A transaction as a worker reads it: the text of its payload, `none` when there is none or it is
not UTF-8. -/
structure Transaction where
  transactionId : Bytes
  payload : Option Text
  blockTime : Option ℤ
  deriving DecidableEq

/-- Control characters are dropped from a payload before it is parsed. -/
def cleanedPayload (payload : Text) : Text :=
  payload.filter fun c => !isControl c || isTextControl c

/-- The K action of a transaction; a channel broadcast has none. -/
def Transaction.action (env : Env) (transaction : Transaction) : Option KAction :=
  match transaction.payload with
  | none => none
  | some payload =>
    if (stripPrefix "kchat:1:bcast:".toList payload).isSome ∨
        (stripPrefix "ciph_msg:1:bcast:".toList payload).isSome then none
    else match parseKProtocolPayload env (cleanedPayload payload) with
      | .ok action => some action
      | .error _ => none

/-- The signature that a transaction's action carries. -/
def Transaction.signature (env : Env) (transaction : Transaction) : Option Bytes :=
  (transaction.action env).bind fun action => hexDecode action.senderSignature

/-- `transaction.block_time.unwrap_or(0)`. -/
def Transaction.time (transaction : Transaction) : ℤ := transaction.blockTime.getD 0

theorem verify_decodes {env : Env} {message signature key : Text}
    (h : verifyKaspaSignature env message signature key = true) :
    ∃ sig pk, hexDecode signature = some sig ∧ hexDecode key = some pk := by
  unfold verifyKaspaSignature at h
  split at h
  · next sig x hsig hx =>
    obtain ⟨pk, hpk, -⟩ := Option.bind_eq_some_iff.mp hx
    exact ⟨sig, pk, hsig, hpk⟩
  · cases h

end KaChatIndexer.KaActions

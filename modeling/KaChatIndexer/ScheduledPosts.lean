import Mathlib.Data.List.Sort
import KaChatIndexer.Interleaving
import KaChatIndexer.KaText

/-!
# Scheduled posts

The web server keeps signed transactions and sends each at its time. A request runs statement by
statement, with the others and the scheduler in between; the scheduler is one loop, and each of its
steps is one await.
-/
namespace KaChatIndexer.ScheduledPosts
open ByteStrings KaText Interleaving Interleaving.Prog

def maxScheduleAheadMs : ℤ := 30 * 24 * 60 * 60 * 1000

def maxScheduleAheadNewKeyMs : ℤ := 48 * 60 * 60 * 1000

def tickBatch : ℕ := 50

def maxTransactionJson : ℕ := 100 * 1024

def maxScheduledPerPubkey : ℕ := 50

def keepFinishedMs : ℤ := 7 * 24 * 60 * 60 * 1000

/-- What comes from other crates. A JSON value is its text; the transaction in it may be nested in a
field of that name. `jsonError` is what `serde_json::from_str` says against a text, `payloadHex` the
transaction's `payload`, `previousOutpoints` its inputs' outpoints, `transactionId` its id. -/
structure Env where
  verifyMessage : Text → Bytes → Bytes → Bool
  jsonError : Text → Option Text
  payloadHex : Text → Option Text
  previousOutpoints : Text → Option (List (Text × ℕ))
  transactionId : Text → Option Text

/-! ## Keys and coins -/

def verifyKaspaSignature (env : Env) (message signature pubkey : Text) : Bool :=
  match hexDecode (trim signature), hexDecode (trim pubkey) with
  | some sig, some pk =>
    if sig.length ≠ 64 then false
    else if pk.length = 33 then env.verifyMessage message sig (pk.drop 1)
    else if pk.length = 32 then env.verifyMessage message sig pk
    else false
  | _, _ => false

/-- The x-only key of an address, on the server's own network. -/
def keyAddress (pubkey : Bytes) : Option Bytes :=
  if pubkey.length = 33 ∧ (pubkey.head? = some 2 ∨ pubkey.head? = some 3) then some (pubkey.drop 1)
  else if pubkey.length = 32 then some pubkey
  else none

def pubkeyAddress (pubkey : Text) : Option Bytes := (hexDecode (trim pubkey)).bind keyAddress

/-- The previous transaction, in lower case, and the index of its output. -/
abbrev Outpoint := Text × ℕ

instance : LawfulBEq Outpoint := inferInstance

def txOutpoints (env : Env) (transaction : Text) : Option (List Outpoint) :=
  (env.previousOutpoints transaction).map fun inputs =>
    inputs.map fun o => (toAsciiLowercase (trim o.1), o.2)

def firstMissing (inputs unspent : List Outpoint) : Option Outpoint :=
  inputs.find? fun o => o ∉ unspent

def firstReserved (inputs : List Outpoint) (others : List (Text × List Outpoint)) :
    Option (Outpoint × Text) :=
  inputs.findSome? fun o => (others.find? fun other => o ∈ other.2).map fun other => (o, other.1)

/-! ## The payload -/

def payloadString (env : Env) (transaction : Text) : Option Text :=
  ((env.payloadHex transaction).bind hexDecode).bind utf8Decode

def payloadPubkey (payload : Text) : Option Text :=
  (stripPrefix "kchat:1:".toList payload).bind fun body => (body.splitOn ':')[1]?

def payloadPreview (payload : Text) : Option Text :=
  (stripPrefix "kchat:1:".toList payload).bind fun body =>
    let parts := body.splitOn ':'
    if parts.head? = some "post".toList ∨ parts.head? = some "quote".toList ∨
        parts.head? = some "poll".toList then parts[3]?
    else if parts.head? = some "reply".toList ∨ parts.head? = some "edit".toList then parts[4]?
    else none

/-! ## The table -/

inductive Status where
  | scheduled | submitted | failed | cancelled
  deriving DecidableEq

/-- A row of `k_scheduled_posts`. `serial` counts the inserts: a transaction id comes again once its
old row is gone. -/
structure Row where
  txId : Bytes
  pubkey : Bytes
  notBefore : ℤ
  transactionJson : Text
  postContent : Option Text
  status : Status
  submittedAt : Option ℤ
  error : Option Text
  createdAt : ℤ
  serial : ℕ
  deriving DecidableEq

/-- What a request inserts. -/
structure NewPost where
  txId : Bytes
  pubkey : Bytes
  notBefore : ℤ
  transactionJson : Text
  postContent : Option Text
  createdAt : ℤ
  deriving DecidableEq

/-- The unspent coins of the keys asked so far in a tick; `none` when the node did not say. -/
abbrev Coins := List (Bytes × Option (List Outpoint))

/-- Where the scheduler's loop stands, before its next await. -/
inductive Scheduler where
  | idle
  | pruned (now : ℤ)
  | cleared (now : ℤ)
  | posting (due : List Row) (coins : Coins)
  | recording (row : Row) (due : List Row) (coins : Coins)
  | failing (row : Row) (error : Text) (due : List Row) (coins : Coins)

/-- What owners and the relay have come to know. -/
inductive Notice where
  | acked (txId : Bytes) (notBefore : ℤ)
  | cancelled (serial : ℕ)
  | sent (serial : ℕ)
  | accepted (serial : ℕ)
  deriving DecidableEq

/-- The notices are kept the newest first. -/
structure Server where
  rows : List Row
  scheduler : Scheduler
  inserted : ℕ
  notices : List Notice

def Server.start : Server := ⟨[], .idle, 0, []⟩

/-! ## Statements -/

inductive Sql where
  | seenSelect
  | waitingSelect
  | unspentCoins
  | insertPost (post : NewPost) (seen : List Row)
  | cancelUpdate (txId pubkey : Bytes)
  | tick
  deriving DecidableEq

namespace Server

/-- The other waiting rows under the same key bytes. -/
def waiting (pubkey txId : Bytes) (s : Server) : List Row :=
  s.rows.filter fun r => r.pubkey = pubkey ∧ r.status = .scheduled ∧ r.txId ≠ txId

/-- `ON CONFLICT (tx_id) DO NOTHING`; the request is answered `scheduled` in any case. -/
def insertPost (post : NewPost) (s : Server) : Server :=
  let notices := .acked post.txId post.notBefore :: s.notices
  if s.rows.any (·.txId = post.txId) then { s with notices := notices }
  else
    { s with
      rows := s.rows ++ [⟨post.txId, post.pubkey, post.notBefore, post.transactionJson,
        post.postContent, .scheduled, none, none, post.createdAt, s.inserted⟩]
      inserted := s.inserted + 1
      notices := notices }

def cancellable (txId pubkey : Bytes) (r : Row) : Bool :=
  r.txId = txId ∧ r.pubkey = pubkey ∧ r.status = .scheduled

/-- Whether a row was cancelled, which its owner is told. -/
def cancelPost (txId pubkey : Bytes) (s : Server) : Bool × Server :=
  match s.rows.find? (cancellable txId pubkey) with
  | none => (false, s)
  | some row =>
    let cancel (r : Row) : Row := if cancellable txId pubkey r then { r with status := .cancelled } else r
    (true, { s with rows := s.rows.map cancel, notices := .cancelled row.serial :: s.notices })

end Server

/-! ## Requests -/

/-- An answer that is not 200: its status, text and code. -/
structure Refusal where
  status : ℕ
  error : String
  code : String
  deriving DecidableEq

def badRequest (error : String) : Refusal := ⟨400, error, "BAD_REQUEST"⟩

def tooMany (error : String) : Refusal := ⟨429, error, "RATE_LIMIT_EXCEEDED"⟩

def nodeUnavailable : Refusal :=
  ⟨503, "cannot check the transaction's coins right now; try again later", "NODE_UNAVAILABLE"⟩

structure SchedulePostRequest where
  pubkey : Text
  txId : Text
  notBefore : ℤ
  signature : Text
  transaction : Text

structure ScheduleAck where
  txId : Text
  notBefore : ℤ
  status : String
  deriving DecidableEq

structure CancelRequest where
  pubkey : Text
  txId : Text
  signature : Text

structure CancelAck where
  txId : Text
  status : String
  deriving DecidableEq

abbrev Handler := Prog Server Sql

def hexDigitText (n : ℕ) : Char := if n < 10 then Char.ofNat (0x30 + n) else Char.ofNat (0x57 + n)

def hexEncode (b : Bytes) : Text :=
  b.flatMap fun x => [hexDigitText (x.toNat / 16), hexDigitText (x.toNat % 16)]

theorem hexDigit_text : ∀ x : Fin 16, hexDigit (hexDigitText x.val) = some x.val := by
  decide +kernel

theorem hexDecode_hexEncode_append (b : Bytes) (t : Text) :
    hexDecode (hexEncode b ++ t) = (hexDecode t).map (b ++ ·) := by
  induction b with
  | nil => simp [hexEncode]
  | cons x b ih =>
    have hx := x.toNat_lt
    have hhi := hexDigit_text ⟨x.toNat / 16, by omega⟩
    have hlo := hexDigit_text ⟨x.toNat % 16, by omega⟩
    have hsum : UInt8.ofNat (16 * (x.toNat / 16) + x.toNat % 16) = x := by
      rw [Nat.div_add_mod, UInt8.ofNat_toNat]
    unfold hexEncode at ih ⊢
    simp only [List.flatMap_cons, List.cons_append, List.nil_append, hexDecode, hhi, hlo, Option.bind_some,
      hsum, ih, Option.map_map]
    rfl

def utf8Length (t : Text) : ℕ := (t.map (·.utf8Size)).sum

def isKchat (payload : Text) : Bool := (stripPrefix "kchat:1:".toList payload).isSome

/-- Another waiting row with the coins of its transaction, if they can be read. -/
def reservation (env : Env) (r : Row) : Option (Text × List Outpoint) :=
  if (env.jsonError r.transactionJson).isSome then none
  else (txOutpoints env r.transactionJson).map fun inputs => (hexEncode r.txId, inputs)

/-- The quota and the reservations are read, the node is asked, the row is inserted. `unspent` is
what the node answers. -/
def reservePost (env : Env) (post : NewPost) (inputs : List Outpoint)
    (unspent : Option (List Outpoint)) : Handler (Except Refusal Unit) := do
  let waiting ← query .waitingSelect (Server.waiting post.pubkey post.txId)
  if maxScheduledPerPubkey ≤ waiting.length then
    return .error (tooMany "too many scheduled posts for this key (50)")
  match firstReserved inputs (waiting.filterMap (reservation env)) with
  | some (o, other) =>
    let txid := String.ofList o.1
    let index := o.2
    let row := String.ofList other
    return .error ⟨409, s!"input {txid}:{index} already backs scheduled post {row}",
      "INPUT_RESERVED"⟩
  | none => do
    let unspent ← query .unspentCoins fun _ => unspent
    match unspent with
    | none => return .error nodeUnavailable
    | some unspent =>
      match firstMissing inputs unspent with
      | some o =>
        let txid := String.ofList o.1
        let index := o.2
        let address := String.ofList (hexEncode ((keyAddress post.pubkey).getD []))
        return .error (badRequest s!"input {txid}:{index} is not an unspent coin of {address}")
      | none => do
        execute (.insertPost post waiting) (Server.insertPost post)
        return .ok ()

def requestTxId (req : SchedulePostRequest) : Text := toAsciiLowercase (trim req.txId)

/-- What a request is checked for before its first statement: what it would insert, and the coins
that its transaction spends. -/
def checkSchedulePost (env : Env) (req : SchedulePostRequest) (now : ℤ) :
    Except Refusal (NewPost × List Outpoint) :=
  let txId := requestTxId req
  let pubkey := toAsciiLowercase (trim req.pubkey)
  let signed := joinFields ["schedule".toList, txId, decimalText req.notBefore]
  if txId = [] ∨ pubkey = [] then .error (badRequest "missing txId or pubkey")
  else if !verifyKaspaSignature env signed req.signature pubkey then
    .error (badRequest "invalid schedule signature")
  else if req.notBefore ≤ now ∨ now + maxScheduleAheadMs < req.notBefore then
    .error (badRequest "notBefore must be within (now, now+30d]")
  else
    match payloadString env req.transaction with
    | none => .error (badRequest "transaction has no decodable payload")
    | some payload =>
      if !isKchat payload then .error (badRequest "transaction payload is not a kchat:1: action")
      else if (payloadPubkey payload).map toAsciiLowercase ≠ some pubkey then
        .error (badRequest "transaction payload pubkey does not match")
      else if maxTransactionJson < utf8Length req.transaction then
        .error (badRequest "transaction is too large")
      else
        match env.transactionId req.transaction with
        | none => .error (badRequest "transaction does not decode")
        | some id =>
          if id ≠ txId then .error (badRequest "txId is not the transaction's id")
          else
            match hexDecode txId with
            | none => .error (badRequest "txId is not hex")
            | some txId =>
              match hexDecode pubkey with
              | none => .error (badRequest "pubkey is not hex")
              | some key =>
                match pubkeyAddress pubkey with
                | none => .error (badRequest "pubkey is not a public key")
                | some _ =>
                  match txOutpoints env req.transaction with
                  | none => .error (badRequest "transaction does not decode")
                  | some inputs =>
                    if inputs = [] then .error (badRequest "transaction has no inputs")
                    else
                      .ok (⟨txId, key, req.notBefore, req.transaction, payloadPreview payload, now⟩,
                        inputs)

/-- A key that has never posted schedules 48 hours ahead at most; `seen` says whether it has. -/
def mayWait (notBefore now : ℤ) (seen : Bool) : Handler Bool :=
  if now + maxScheduleAheadNewKeyMs < notBefore then query .seenSelect fun _ => seen else pure true

/-- `now` is the clock's time. -/
def handleSchedulePost (env : Env) (req : SchedulePostRequest) (now : ℤ) (seen : Bool)
    (unspent : Option (List Outpoint)) : Handler (Except Refusal ScheduleAck) :=
  match checkSchedulePost env req now with
  | .error refusal => return .error refusal
  | .ok (post, inputs) => do
    if !(← mayWait req.notBefore now seen) then
      return .error (badRequest "a key with no KaPosts yet may schedule at most 48 hours ahead")
    match ← reservePost env post inputs unspent with
    | .error refusal => return .error refusal
    | .ok () => return .ok ⟨requestTxId req, req.notBefore, "scheduled"⟩

def handleCancelScheduledPost (env : Env) (req : CancelRequest) :
    Handler (Except Refusal CancelAck) := do
  let txId := toAsciiLowercase (trim req.txId)
  let pubkey := toAsciiLowercase (trim req.pubkey)
  if !verifyKaspaSignature env (joinFields ["cancel-schedule".toList, txId]) req.signature
      pubkey then return .error (badRequest "invalid cancel signature")
  let some txIdBytes := hexDecode txId | return .error (badRequest "txId is not hex")
  let some pubkeyBytes := hexDecode pubkey | return .error (badRequest "pubkey is not hex")
  if !(← stmt (.cancelUpdate txIdBytes pubkeyBytes) (Server.cancelPost txIdBytes pubkeyBytes)) then
    return .error ⟨404, "no cancellable scheduled post with that txId", "NOT_FOUND"⟩
  return .ok ⟨txId, "cancelled"⟩

/-! ## The scheduler -/

/-- How a submission ends: the relay has accepted the transaction, or refused it, or its answer is
lost after it has accepted, or it was not reached. -/
inductive Relay where
  | ok
  | rejected (message : Text)
  | lost
  | unreachable
  deriving DecidableEq

def Relay.accepts : Relay → Bool
  | .ok | .lost => true
  | .rejected _ | .unreachable => false

/-- What a step of the loop meets: the clock, and the answers of the node and of the relay. -/
structure Tick where
  now : ℤ
  unspent : Option (List Outpoint)
  relay : Relay

/-- `ROW_NUMBER() OVER (PARTITION BY pubkey ...)` of the rows in their order, from 0. -/
def turns : List Row → List Row → List (ℕ × Row)
  | _, [] => []
  | before, row :: rows =>
      (before.countP (·.pubkey = row.pubkey), row) :: turns (row :: before) rows

/-- Every key's first due post, then every key's second; ties in the table's order. -/
def dueRows (now : ℤ) (rows : List Row) : List Row :=
  let due := rows.filter fun r => r.status = .scheduled ∧ r.notBefore ≤ now
  let byTime := due.insertionSort fun a b =>
    a.notBefore < b.notBefore ∨ a.notBefore = b.notBefore ∧ a.createdAt ≤ b.createdAt
  let byTurn := (turns [] byTime).insertionSort fun a b =>
    a.1 < b.1 ∨ a.1 = b.1 ∧ a.2.notBefore ≤ b.2.notBefore
  (byTurn.take tickBatch).map (·.2)

/-- A finished row that is old enough to go. -/
def prunable (now : ℤ) (r : Row) : Bool :=
  r.status ≠ .scheduled ∧ r.submittedAt.getD r.notBefore < now - keepFinishedMs

/-- A finished row loses its transaction. -/
def clearFinished (r : Row) : Row :=
  if r.status ≠ .scheduled then { r with transactionJson := [] } else r

def markFailed (txId : Bytes) (error : Text) (r : Row) : Row :=
  if r.txId = txId ∧ r.status = .scheduled then
    { r with status := .failed, error := some (error.take 400) }
  else r

def markSubmitted (txId : Bytes) (now : ℤ) (r : Row) : Row :=
  if r.txId = txId ∧ r.status = .scheduled then
    { r with status := .submitted, submittedAt := some now, error := none }
  else r

/-- The coins of a sent transaction are spent for the rest of the tick. -/
def spend (pubkey : Bytes) (inputs : List Outpoint) (coins : Coins) : Coins :=
  coins.map fun entry =>
    if entry.1 = pubkey then (entry.1, entry.2.map fun unspent => unspent.filter (· ∉ inputs))
    else entry

namespace Server

/-- The next due row: its coins are looked up, checked, and the transaction is sent. -/
def postNext (env : Env) (input : Tick) (row : Row) (due : List Row) (coins : Coins) (s : Server) :
    Server :=
  match env.jsonError row.transactionJson with
  | some e =>
    { s with scheduler := .failing row ("stored transaction not JSON: ".toList ++ e) due coins }
  | none =>
    match coins.lookup row.pubkey with
    | none =>
      let unspent := (keyAddress row.pubkey).bind fun _ => input.unspent
      { s with scheduler := .posting (row :: due) ((row.pubkey, unspent) :: coins) }
    | some unspent =>
      match unspent.bind (firstMissing ((txOutpoints env row.transactionJson).getD [])) with
      | some o =>
        let error := "input ".toList ++ o.1 ++ ":".toList ++ decimalText o.2 ++
          " is already spent".toList
        { s with scheduler := .failing row error due coins }
      | none =>
        let sent := .sent row.serial :: s.notices
        let notices := if input.relay.accepts then .accepted row.serial :: sent else sent
        match input.relay with
        | .ok => { s with notices := notices, scheduler := .recording row due coins }
        | .rejected message =>
          let error := "submit rejected: ".toList ++ message
          { s with notices := notices, scheduler := .failing row error due coins }
        | .lost | .unreachable => { s with notices := notices, scheduler := .posting due coins }

/-- The scheduler up to its next await: `prune`'s two statements, the batch, and each row of it. -/
def tick (env : Env) (input : Tick) (s : Server) : Server :=
  match s.scheduler with
  | .idle =>
    { s with rows := s.rows.filter fun r => ¬ prunable input.now r, scheduler := .pruned input.now }
  | .pruned now => { s with rows := s.rows.map clearFinished, scheduler := .cleared now }
  | .cleared now => { s with scheduler := .posting (dueRows now s.rows) [] }
  | .posting [] _ => { s with scheduler := .idle }
  | .posting (row :: due) coins => s.postNext env input row due coins
  | .recording row due coins =>
    let inputs := (txOutpoints env row.transactionJson).getD []
    { s with
      rows := s.rows.map (markSubmitted row.txId input.now)
      scheduler := .posting due (spend row.pubkey inputs coins) }
  | .failing row error due coins =>
    { s with rows := s.rows.map (markFailed row.txId error), scheduler := .posting due coins }

end Server

/-! ## The server -/

/-- A request with what its awaits are answered, or a step of the scheduler. -/
inductive Job where
  | schedule (req : SchedulePostRequest) (now : ℤ) (seen : Bool)
      (unspent : Option (List Outpoint))
  | cancel (req : CancelRequest)
  | tick (input : Tick)

def Job.prog (env : Env) : Job → Prog Server Sql Unit
  | .schedule req now seen unspent => do
      let _ ← handleSchedulePost env req now seen unspent
  | .cancel req => do
      let _ ← handleCancelScheduledPost env req
  | .tick input => execute .tick (Server.tick env input)

/-- Any requests and any steps of the scheduler, while each statement runs only where it may. -/
def server (env : Env) (input : Job → Prop) (may : Job → Sql → Server → Prop) :
    System Server Sql Job := ⟨input, Job.prog env, may⟩

/-! ## The statements of a job -/

inductive Runs (env : Env) (job : Job) : Sql → (Server → Server) → Prop
  | read (ev : Sql) : Runs env job ev id
  | insert {req : SchedulePostRequest} {now : ℤ} {seen : Bool} {unspent : Option (List Outpoint)}
      (h : job = .schedule req now seen unspent) (post : NewPost) (waiting : List Row) :
      Runs env job (.insertPost post waiting) (Server.insertPost post)
  | cancel (txId pubkey : Bytes) :
      Runs env job (.cancelUpdate txId pubkey) fun s => (s.cancelPost txId pubkey).2
  | tick {input : Tick} (h : job = .tick input) : Runs env job .tick (Server.tick env input)

theorem runs_reserve {env : Env} {job : Job} {req : SchedulePostRequest} {now : ℤ} {seen : Bool}
    {answer : Option (List Outpoint)} (h : job = .schedule req now seen answer) (post : NewPost)
    (inputs : List Outpoint) (unspent : Option (List Outpoint)) :
    (reservePost env post inputs unspent).All (Runs env job) := by
  refine .query_bind (.read _) fun waiting => ?_
  split
  · trivial
  · split
    · trivial
    · refine .query_bind (.read _) fun coins => ?_
      split
      · trivial
      · split
        · trivial
        · exact .execute_bind (.insert h post waiting) trivial

theorem runs_job (env : Env) (job : Job) : (job.prog env).All (Runs env job) := by
  cases job with
  | schedule req now seen unspent =>
    refine All.bind ?_ fun _ => trivial
    unfold handleSchedulePost
    split
    · trivial
    · next post inputs _ =>
      refine All.bind ?_ fun allowed => ?_
      · unfold mayWait
        split
        · exact .query_bind (.read _) fun _ => trivial
        · trivial
      · split
        · trivial
        · refine (runs_reserve rfl post inputs unspent).bind fun result => ?_
          split <;> trivial
  | cancel req =>
    refine All.bind ?_ fun _ => trivial
    unfold handleCancelScheduledPost
    dsimp only
    split
    · trivial
    · split
      · split
        · refine .stmt_bind (.cancel _ _) fun cancelled => ?_
          split <;> trivial
        · trivial
      · trivial
  | tick input => exact ⟨.tick rfl, fun _ => trivial⟩

/-! ## What passes the checks -/

theorem hexDecode_trim {t : Text} {b : Bytes} (h : hexDecode t = some b) : trim t = t := by
  have hchars := hexDecode_chars h
  have hkeep (l : Text) (hl : ∀ c ∈ l, isHexChar c = true) : l.dropWhile isWhitespace = l := by
    cases l with
    | nil => rfl
    | cons c l =>
      have hc := hexChar_ascii (hl c List.mem_cons_self)
      have hspace : isWhitespace c = false := by
        simp only [isWhitespace, Bool.or_eq_false_iff, Bool.and_eq_false_iff, beq_eq_false_iff_ne,
          decide_eq_false_iff_not]
        omega
      rw [List.dropWhile_cons_of_neg (by simp [hspace])]
  unfold trim
  rw [hkeep t hchars, hkeep t.reverse fun c hc => hchars c (List.mem_reverse.mp hc),
    List.reverse_reverse]

theorem check_ok {env : Env} {req : SchedulePostRequest} {now : ℤ} {post : NewPost}
    {inputs : List Outpoint} (h : checkSchedulePost env req now = .ok (post, inputs)) :
    post.transactionJson = req.transaction ∧ txOutpoints env req.transaction = some inputs ∧
      keyAddress post.pubkey = pubkeyAddress (toAsciiLowercase (trim req.pubkey)) ∧
      (keyAddress post.pubkey).isSome := by
  unfold checkSchedulePost at h
  dsimp only at h
  repeat' split at h
  all_goals try cases h
  next key hkey _ address haddress _ hinputs _ =>
    have hsame : pubkeyAddress (toAsciiLowercase (trim req.pubkey)) = keyAddress key := by
      rw [pubkeyAddress, hexDecode_trim hkey, hkey]
      rfl
    exact ⟨rfl, hinputs, hsame.symm, by rw [← hsame, haddress]; rfl⟩

/-! ## Sample transactions -/

def sampleXonly : Text := List.replicate 64 '1'

/-- The key in its 02 or 03 form. -/
def samplePubkey (parity : Char) : Text := '0' :: parity :: sampleXonly

/-- A post of the key that spends the output of that index. -/
def samplePayload (parity : Char) : Text :=
  hexEncode (("kchat:1:post:".toList ++ samplePubkey parity ++ ":aGk=".toList).map fun c =>
    UInt8.ofNat c.toNat)

def sampleCoin : Text := (List.replicate 32 ['a', 'b']).flatten

/-! JSON texts, from their members. -/

def quoted (value : Text) : Text := '"' :: value ++ ['"']

def member (name : String) (value : Text) : Text := quoted name.toList ++ ':' :: value

def object (members : List Text) : Text := '\x7b' :: List.intercalate [','] members ++ ['\x7d']

def sampleTransaction (parity index : Char) : Text :=
  let outpoint := object [member "index" [index], member "transactionId" (quoted sampleCoin)]
  let input := object [member "previousOutpoint" outpoint, member "sequence" ['0'],
    member "sigOpCount" ['1'], member "signatureScript" (quoted ['4', '1', '0', '1'])]
  let script := object [member "scriptPublicKey" (quoted ('2' :: '0' :: sampleXonly ++ ['a', 'c'])),
    member "version" ['0']]
  let output := object [member "amount" "123456".toList, member "scriptPublicKey" script]
  object [member "gas" ['0'], member "inputs" ('[' :: input ++ [']']), member "lockTime" ['0'],
    member "outputs" ('[' :: output ++ [']']), member "payload" (quoted (samplePayload parity)),
    member "subnetworkId" (quoted (List.replicate 40 '0')), member "version" ['0']]

/-- What the readers of a JSON value find in the sample transactions. -/
structure Reading where
  json : Text
  payload : Text
  outpoint : Text × ℕ
  id : Text

def reading (parity index : Char) (id : String) : Reading :=
  ⟨sampleTransaction parity index, samplePayload parity, (sampleCoin, index.toNat - 0x30), id.toList⟩

def readings : List Reading :=
  [reading '2' '1' "8cde3878cba84ffa90db7e4ce915f986cc87fb6d5b11d158c9646d306e1bdcd5",
    reading '3' '1' "1f26bc30088d62db9d0593d13e3c5c6939218bba9d25f16395ac25fd96c00a42",
    reading '3' '2' "14af71c2d2d4ce4f8ed9d11414078c8c37a9142e68f59c4a41677ef9eb5acb2d"]

def sampleEnv : Env where
  verifyMessage _ _ _ := true
  jsonError text :=
    if readings.any (·.json = text) then none
    else some "EOF while parsing a value at line 1 column 0".toList
  payloadHex text := (readings.find? (·.json = text)).map (·.payload)
  previousOutpoints text := (readings.find? (·.json = text)).map fun r => [r.outpoint]
  transactionId text := (readings.find? (·.json = text)).map (·.id)

def sampleRequest (parity index : Char) (id : String) (notBefore : ℤ) : SchedulePostRequest :=
  ⟨samplePubkey parity, id.toList, notBefore, List.replicate 128 '4', sampleTransaction parity index⟩

/-- The coin `index` under the 02 form of the key, or under the 03 form. -/
def firstRequest (notBefore : ℤ) : SchedulePostRequest :=
  sampleRequest '2' '1' "8cde3878cba84ffa90db7e4ce915f986cc87fb6d5b11d158c9646d306e1bdcd5" notBefore

def sameCoinRequest (notBefore : ℤ) : SchedulePostRequest :=
  sampleRequest '3' '1' "1f26bc30088d62db9d0593d13e3c5c6939218bba9d25f16395ac25fd96c00a42" notBefore

def otherCoinRequest (notBefore : ℤ) : SchedulePostRequest :=
  sampleRequest '3' '2' "14af71c2d2d4ce4f8ed9d11414078c8c37a9142e68f59c4a41677ef9eb5acb2d" notBefore

/-- The key's coins, as the node lists them. -/
def sampleUnspent : Option (List Outpoint) := some [(sampleCoin, 1), (sampleCoin, 2)]

def sampleOwner (o : Outpoint) : Option Bytes :=
  if o.1 = sampleCoin then hexDecode sampleXonly else none

end KaChatIndexer.ScheduledPosts

import KaChatIndexer.KaText
import Mathlib.Data.Char
import Mathlib.Data.List.Dedup
import Mathlib.Data.List.Lex
import Mathlib.Data.List.Sort

/-!
# The fields of a push registration

Device tokens, addresses, group ids, capabilities and aliases, as the registry normalises them before
it stores them.
-/
namespace KaChatIndexer.PushFields
open ByteStrings KaText

def maxWatchedAddresses : ℕ := 256

def maxWatchedGroupIds : ℕ := 256

def maxCapabilities : ℕ := 32

def maxCapabilityLenBytes : ℕ := 64

def maxAliases : ℕ := 256

def maxAliasLenBytes : ℕ := 64

def maxAddressLenBytes : ℕ := 128

def minFcmTokenLen : ℕ := 64

def maxFcmTokenLen : ℕ := 4096

def maxWebEndpointLen : ℕ := 2048

def walletPubkeyHexLen : ℕ := 64

/-- `str::len`. -/
def len (t : Text) : ℕ := (t.map (·.utf8Size)).sum

/-- A set of strings as a sorted vector. -/
def sortedSet (l : List Text) : List Text := l.dedup.insertionSort (· ≤ ·)

theorem mem_sortedSet {l : List Text} {t : Text} : t ∈ sortedSet l ↔ t ∈ l := by
  rw [sortedSet, List.mem_insertionSort, List.mem_dedup]

theorem sortedSet_congr {l l' : List Text} (h : ∀ t, t ∈ l ↔ t ∈ l') : sortedSet l = sortedSet l' := by
  have hperm : l.dedup.Perm l'.dedup :=
    (List.perm_ext_iff_of_nodup (List.nodup_dedup l) (List.nodup_dedup l')).mpr fun t => by
      rw [List.mem_dedup, List.mem_dedup, h t]
  refine List.Perm.eq_of_pairwise' (List.pairwise_insertionSort (· ≤ ·) _)
    (List.pairwise_insertionSort (· ≤ ·) _) ?_
  exact ((List.perm_insertionSort _ _).trans hperm).trans (List.perm_insertionSort _ _).symm

/-- Addresses, as `RpcAddress` reads and writes them, and what the index keeps of one. -/
structure AddressEnv (Address Payload : Type) where
  /-- `RpcAddress::try_from` -/
  parse : Text → Option Address
  /-- `RpcAddress::to_string` -/
  text : Address → Text
  /-- `AddressPayload::try_from` -/
  payload : Address → Option Payload
  parseError : Text → Text
  payloadError : Address → Text
  hexError : Text → Text

def okOr {α : Type*} (e : Text) : Option α → Except Text α
  | some a => .ok a
  | none => .error e

/-! ## Device tokens -/

def isAsciiHexdigit (c : Char) : Bool := isHexChar c

def isAsciiAlphanumeric (c : Char) : Bool :=
  ('0' ≤ c && c ≤ '9') || ('a' ≤ c && c ≤ 'z') || ('A' ≤ c && c ≤ 'Z')

/-- The characters of an FCM token. -/
def isTokenChar (c : Char) : Bool :=
  isAsciiAlphanumeric c || c == '-' || c == '_' || c == ':' || c == '.'

def startsWith (pre t : Text) : Bool := (stripPrefix pre t).isSome

def endsWith (suffix t : Text) : Bool := suffix.isSuffixOf t

/-- `endpoint_host_allowed`: the host up to the port, without the user. -/
def endpointHostAllowed (endpoint : Text) : Bool :=
  match stripPrefix "https://".toList endpoint with
  | none => false
  | some rest =>
    let authority := rest.takeWhile fun c => !(c == '/' || c == '?' || c == '#')
    let afterUser := ((authority.splitOn '@').getLast?).getD []
    let host := toAsciiLowercase (afterUser.takeWhile (· != ':'))
    host == "fcm.googleapis.com".toList || host == "updates.push.services.mozilla.com".toList ||
      endsWith ".push.apple.com".toList host || endsWith ".googleapis.com".toList host ||
      endsWith ".notify.windows.com".toList host

def isControlOrSpace (c : Char) : Bool := isWhitespace c || isControl c

/-- A web push endpoint as sent, an APNs token as lower-case hex, an FCM token as sent. -/
def normalizeDeviceToken (token : Text) : Except Text Text :=
  let trimmed := trim token
  if startsWith "https://".toList trimmed then
    if maxWebEndpointLen < len trimmed ∨ trimmed.any isControlOrSpace then
      .error "Invalid web push endpoint".toList
    else if !endpointHostAllowed trimmed then .error "Unsupported web push endpoint host".toList
    else .ok trimmed
  else if trimmed.all fun c => isAsciiHexdigit c || isWhitespace c then
    let cleaned := trimmed.filter isAsciiHexdigit
    if len cleaned < 64 ∨ 512 < len cleaned ∨ len cleaned % 2 ≠ 0 then
      .error "Invalid device token length".toList
    else .ok (toAsciiLowercase cleaned)
  else if len trimmed < minFcmTokenLen ∨ maxFcmTokenLen < len trimmed then
    .error "Invalid device token length".toList
  else if !trimmed.all isTokenChar then .error "Invalid device token characters".toList
  else .ok trimmed

/-! ## Limits -/

def tooMany (what : Text) (n max : ℕ) : Text :=
  "Too many ".toList ++ what ++ ": ".toList ++ decimalText n ++ " (max ".toList ++ decimalText max ++
    ")".toList

def tooLong (what : Text) (n max : ℕ) : Text :=
  what ++ " is too long: ".toList ++ decimalText n ++ " bytes (max ".toList ++ decimalText max ++
    ")".toList

def checkAddress (address : Text) : Except Text Unit :=
  if trim address = [] then .error "watched_addresses must not contain empty entries".toList
  else if maxAddressLenBytes < len (trim address) then
    .error (tooLong "Address".toList (len (trim address)) maxAddressLenBytes)
  else .ok ()

def checkAlias (name : Text) : Except Text Unit :=
  if maxAliasLenBytes < len (trim name) then
    .error (tooLong "Alias".toList (len (trim name)) maxAliasLenBytes)
  else .ok ()

def checkCapability (capability : Text) : Except Text Unit :=
  if maxCapabilityLenBytes < len (trim capability) then .error "Capability is too long".toList
  else .ok ()

def validateRegistrationLimits (watchedAddresses watchedGroupIds capabilities aliases : List Text) :
    Except Text Unit :=
  if maxWatchedAddresses < watchedAddresses.length then
    .error (tooMany "watched addresses".toList watchedAddresses.length maxWatchedAddresses)
  else if maxWatchedGroupIds < watchedGroupIds.length then
    .error (tooMany "watched group ids".toList watchedGroupIds.length maxWatchedGroupIds)
  else if maxCapabilities < capabilities.length then
    .error (tooMany "capabilities".toList capabilities.length maxCapabilities)
  else if maxAliases < aliases.length then
    .error (tooMany "aliases".toList aliases.length maxAliases)
  else do
    capabilities.forM checkCapability
    watchedAddresses.forM checkAddress
    aliases.forM checkAlias

/-! ## Lists -/

section
variable {Address Payload : Type} (env : AddressEnv Address Payload)

/-- A `HashSet::insert` that keeps the first of equal strings. -/
def insertNew {α : Type} (key : Text) (value : α) (acc : List (Text × α)) : List (Text × α) :=
  if key ∈ acc.map Prod.fst then acc else acc ++ [(key, value)]

/-- Canonical texts with their payloads, the first of each. -/
def normalizeAddressesFrom (acc : List (Text × Payload)) :
    List Text → Except Text (List (Text × Payload))
  | [] => .ok acc
  | a :: rest => do
      let rpc ← okOr ("Invalid address: ".toList ++ env.parseError a) (env.parse a)
      let payload ← okOr ("Invalid address payload: ".toList ++ env.payloadError rpc) (env.payload rpc)
      normalizeAddressesFrom (insertNew (env.text rpc) payload acc) rest

def normalizeAddresses (addresses : List Text) : Except Text (List (Text × Payload)) :=
  normalizeAddressesFrom env [] addresses

def decodeGroupIdHex (value : Text) : Except Text Bytes :=
  let normalized := trim value
  if len normalized ≠ 64 then .error "blinded group id must be 32-byte hex".toList
  else okOr ("invalid blinded group id: ".toList ++ env.hexError normalized) (hexDecode normalized)

def normalizeGroupIdsFrom (acc : List (Text × Bytes)) : List Text → Except Text (List (Text × Bytes))
  | [] => .ok acc
  | g :: rest => do
      let value := toAsciiLowercase (trim g)
      let bytes ← decodeGroupIdHex env value
      normalizeGroupIdsFrom (insertNew value bytes acc) rest

def normalizeGroupIds (values : List Text) : Except Text (List (Text × Bytes)) :=
  normalizeGroupIdsFrom env [] values

def isCapabilityChar (c : Char) : Bool :=
  ('a' ≤ c && c ≤ 'z') || ('0' ≤ c && c ≤ '9') || c == '_' || c == '-' || c == '.'

def isCapability (t : Text) : Bool := len t ≤ maxCapabilityLenBytes && t.all isCapabilityChar

/-- The entries that a `canonicalize_*` or `normalize_*` keeps: none that are blank. -/
def kept (normalize : Text → Text) (values : List Text) : List Text :=
  (values.filter fun v => trim v ≠ []).map fun v => normalize (trim v)

def normalizeCapabilities (values : List Text) : Except Text (List Text) :=
  let values := kept toAsciiLowercase values
  if values.all isCapability then .ok (sortedSet values) else .error "Invalid capability".toList

/-- `normalize_aliases_vec`. -/
def normalizeAliasesVec (aliases : List Text) : List Text := sortedSet (kept id aliases)

def normalizePrimaryAddress (address : Option Text) : Option Text :=
  address.bind fun a => (env.parse (trim a)).map env.text

def addressToPayload (address : Text) : Except Text Payload := do
  let rpc ← okOr (env.parseError address) (env.parse address)
  okOr (env.payloadError rpc) (env.payload rpc)

end

end KaChatIndexer.PushFields

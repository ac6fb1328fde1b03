import KaChatIndexer.PushFields
import Mathlib.Data.Finmap

/-!
# Signed push requests

A request may carry a wallet's signature over a text of lines, and a device key's over another. Both
name a nonce that the server has issued, and only the nonce's first use goes through.
-/
namespace KaChatIndexer.PushAuth
open ByteStrings KaText PushFields

def authDomainV1 : Text := "kchat-push-auth:v1".toList

def authDomainV2 : Text := "kchat-push-auth:v2".toList

def deviceAuthDomain : Text := "kchat-push-device-auth:v1".toList

def legacyAuthDomainPrefix : Text := "domain=kchat-push-auth:".toList

def legacyAuthDomainPrefixReplacement : Text := "domain=kasia-push-auth:".toList

def legacyDeviceAuthDomainPrefix : Text := "domain=kchat-push-device-auth:".toList

def legacyDeviceAuthDomainPrefixReplacement : Text := "domain=kasia-push-device-auth:".toList

def deviceAuthScheme : Text := "device_key_v1".toList

def nonceTtlMs : ℕ := 60000

def maxSignatureWindowMs : ℕ := 60000

def maxClockSkewMs : ℕ := 60000

def maxNonceStoreEntries : ℕ := 50000

def groupV1Capability : Text := "group_v1".toList

/-- `u64::saturating_add`. -/
def saturatingAdd (a b : ℕ) : ℕ := min (a + b) (2 ^ 64 - 1)

/-! ## Errors -/

inductive StatusCode
  | badRequest | unauthorized | forbidden | tooManyRequests | serviceUnavailable | internalServerError
  deriving DecidableEq

structure PushApiError where
  status : StatusCode
  message : Text

def badRequest (message : Text) : PushApiError := ⟨.badRequest, message⟩

def unauthorized (message : Text) : PushApiError := ⟨.unauthorized, message⟩

/-! ## Requests -/

structure PushDeviceAuthRequest where
  scheme : Text
  keyId : Text
  pubkey : Text
  counter : ℕ
  signature : Text

structure PushAuthRequest where
  authVersion : Option ℕ
  walletPubkey : Text
  walletAddress : Text
  nonce : Text
  timestampMs : ℕ
  expiresAtMs : ℕ
  signature : Text
  deviceAuth : Option PushDeviceAuthRequest

structure WalletBinding where
  walletPubkey : Text
  walletAddress : Text
  deriving DecidableEq

structure DeviceKeyBinding where
  keyId : Text
  publicKeyB64 : Text
  counter : ℕ
  deriving DecidableEq

structure VerifiedPushAuth where
  walletBinding : Option WalletBinding
  deviceBinding : Option DeviceKeyBinding
  capabilities : List Text

inductive PushAuthMode
  | legacy | mixed | strict
  deriving DecidableEq

/-- What `authenticate_push_request` is given of a request. -/
structure PushFields where
  method : Text
  path : Text
  deviceToken : Text
  watchedAddresses : List Text
  watchedGroupIds : Option (List Text)
  capabilities : List Text
  primaryAddress : Option Text
  aliases : List Text

/-- The crates that hash, verify and encode. -/
structure AuthEnv (Address Payload : Type) extends AddressEnv Address Payload where
  /-- `Sha256::digest` -/
  digest : Bytes → Bytes
  /-- `XOnlyPublicKey::from_slice` succeeds -/
  isXOnlyPubkey : Bytes → Bool
  /-- `SchnorrSignature::from_slice` succeeds -/
  isSchnorrSignature : Bytes → Bool
  /-- `verify_schnorr` of a public key, a message's digest and a signature -/
  verifySchnorr : Bytes → Bytes → Bytes → Bool
  /-- `Address::new` on the server's network, as text -/
  deriveAddress : Bytes → Text
  /-- the base64 engines, one after the other -/
  decodeBase64 : Text → Option Bytes
  /-- `STANDARD.encode` -/
  encodeBase64 : Bytes → Text
  /-- `UnparsedPublicKey::verify` of a public key, a message and a signature in either encoding -/
  verifyP256 : Bytes → Bytes → Bytes → Bool

/-! ## Texts -/

/-- The bytes of a string. -/
def utf8 (t : Text) : Bytes := (String.ofList t).toByteArray.data.toList

def hexChar (nibble : ℕ) : Char :=
  if nibble ≤ 9 then Char.ofNat (0x30 + nibble) else Char.ofNat (0x61 + (nibble - 10))

def hexEncode (b : Bytes) : Text := b.flatMap fun x => [hexChar (x.toNat / 16), hexChar (x.toNat % 16)]

/-- `[_].join("\n")`. -/
def joinLines (lines : List Text) : Text := ['\n'].intercalate lines

/-- `str::replacen(_, _, 1)`. -/
def replaceFirst (pattern replacement : Text) : Text → Text
  | [] => if pattern = [] then replacement else []
  | c :: t =>
    match stripPrefix pattern (c :: t) with
    | some rest => replacement ++ rest
    | none => c :: replaceFirst pattern replacement t

def decodeHex (value field : Text) : Except PushApiError Bytes :=
  if len (trim value) % 2 ≠ 0 then .error (badRequest (field ++ " must be even-length hex".toList))
  else
    match hexDecode (trim value) with
    | some b => .ok b
    | none => .error (badRequest (field ++ " contains non-hex characters".toList))

def normalizeHexField (value : Text) (expectedLenBytes : ℕ) (field : Text) : Except PushApiError Text :=
  let normalized := toAsciiLowercase (trim value)
  if len normalized ≠ expectedLenBytes * 2 then
    .error (badRequest (field ++ " must be ".toList ++ decimalText expectedLenBytes ++ "-byte hex".toList))
  else if !normalized.all isAsciiHexdigit then .error (badRequest (field ++ " must be hex".toList))
  else .ok normalized

def canonicalizeWatchedAddresses (values : List Text) : List Text :=
  sortedSet (kept toAsciiLowercase values)

def canonicalizeAliases (values : List Text) : List Text := sortedSet (kept id values)

def canonicalizeWatchedGroupIds (values : List Text) : List Text :=
  sortedSet (kept toAsciiLowercase values)

def canonicalizeCapabilitiesForHash (values : List Text) : List Text :=
  sortedSet (kept toAsciiLowercase values)

def canonicalizeCapabilities (values : List Text) : Except PushApiError (List Text) :=
  let values := canonicalizeCapabilitiesForHash values
  if 32 < values.length then .error (badRequest "Too many capabilities".toList)
  else if !values.all isCapability then .error (badRequest "Invalid capability".toList)
  else .ok values

/-! ## The signed texts -/

inductive AuthPreimageFormat
  | legacyV1 | transitionalGroups | v2
  deriving DecidableEq

def selectAuthFormat (authVersion : Option ℕ) (watchedGroupIds : Option (List Text))
    (capabilities : List Text) : Except PushApiError AuthPreimageFormat :=
  match authVersion with
  | none | some 1 =>
    if capabilities = [] then
      .ok (if watchedGroupIds.isSome then .transitionalGroups else .legacyV1)
    else .error (badRequest "capabilities require auth_version=2".toList)
  | some 2 => .ok .v2
  | some _ => .error (badRequest "Unsupported auth_version".toList)

def effectiveCapabilities (format : AuthPreimageFormat) (watchedGroupIds requested : List Text) :
    Except PushApiError (List Text) :=
  match format with
  | .legacyV1 => .ok []
  | .transitionalGroups => .ok [groupV1Capability]
  | .v2 => do
      let capabilities ← canonicalizeCapabilities requested
      if watchedGroupIds ≠ [] ∧ groupV1Capability ∉ capabilities then
        .error (badRequest "watched_group_ids require the group_v1 capability".toList)
      else .ok capabilities

structure AuthPreimage where
  format : AuthPreimageFormat
  nonce : Text
  method : Text
  path : Text
  deviceToken : Text
  watchedAddresses : List Text
  watchedGroupIds : List Text
  capabilities : List Text
  primaryAddress : Text
  aliases : List Text
  walletPubkey : Text
  walletAddress : Text
  timestampMs : ℕ
  expiresAtMs : ℕ

structure DeviceAuthPreimage where
  nonce : Text
  method : Text
  path : Text
  deviceToken : Text
  keyId : Text
  counter : ℕ
  timestampMs : ℕ
  expiresAtMs : ℕ

def line (key : String) (value : Text) : Text := key.toList ++ '=' :: value

def AuthPreimageFormat.domain : AuthPreimageFormat → Text
  | legacyV1 | transitionalGroups => authDomainV1
  | v2 => authDomainV2

section
variable {Address Payload : Type} (env : AuthEnv Address Payload)

def hashString (value : Text) : Text := hexEncode (env.digest (utf8 value))

def authLines (p : AuthPreimage) : List Text :=
  line "domain" p.format.domain ::
  (if p.format = .v2 then [line "auth_version" "2".toList] else []) ++
  [line "nonce" p.nonce, line "method" p.method, line "path" p.path,
    line "device_token_hash" (hashString env p.deviceToken),
    line "watched_addresses_hash"
      (hashString env (joinLines (canonicalizeWatchedAddresses p.watchedAddresses)))] ++
  (if p.format = .transitionalGroups ∨ p.format = .v2 then
    [line "watched_group_ids_hash"
      (hashString env (joinLines (canonicalizeWatchedGroupIds p.watchedGroupIds)))] else []) ++
  (if p.format = .v2 then
    [line "capabilities_hash"
      (hashString env (joinLines (canonicalizeCapabilitiesForHash p.capabilities)))] else []) ++
  [line "primary_address" p.primaryAddress,
    line "aliases_hash" (hashString env (joinLines (canonicalizeAliases p.aliases))),
    line "wallet_pubkey" p.walletPubkey, line "wallet_address" p.walletAddress,
    line "timestamp_ms" (decimalText p.timestampMs), line "expires_at_ms" (decimalText p.expiresAtMs)]

def buildAuthPreimage (p : AuthPreimage) : Text := joinLines (authLines env p)

def buildDeviceAuthPreimage (p : DeviceAuthPreimage) : Text :=
  joinLines [line "domain" deviceAuthDomain, line "nonce" p.nonce, line "method" p.method,
    line "path" p.path, line "device_token_hash" (hashString env p.deviceToken),
    line "key_id" p.keyId, line "counter" (decimalText p.counter),
    line "timestamp_ms" (decimalText p.timestampMs), line "expires_at_ms" (decimalText p.expiresAtMs)]

def legacyPreimage (preimage : Text) : Text :=
  replaceFirst legacyAuthDomainPrefix legacyAuthDomainPrefixReplacement preimage

def legacyDevicePreimage (preimage : Text) : Text :=
  replaceFirst legacyDeviceAuthDomainPrefix legacyDeviceAuthDomainPrefixReplacement preimage

/-! ## Verification -/

def validateAuthTiming (auth : PushAuthRequest) (nowMs : ℕ) : Except PushApiError Unit :=
  if auth.expiresAtMs < auth.timestampMs then
    .error (badRequest "expires_at_ms must be >= timestamp_ms".toList)
  else if maxSignatureWindowMs < auth.expiresAtMs - auth.timestampMs then
    .error (badRequest "Signed request validity window is too large".toList)
  else if saturatingAdd nowMs maxClockSkewMs < auth.timestampMs then
    .error (unauthorized "timestamp_ms is too far in the future".toList)
  else if saturatingAdd auth.expiresAtMs maxClockSkewMs < nowMs then
    .error (unauthorized "Signed request is expired".toList)
  else .ok ()

def normalizeWalletAddress (address : Text) : Except PushApiError Text :=
  if trim address = [] then .error (badRequest "wallet_address must not be empty".toList)
  else
    match env.parse (trim address) with
    | some a => .ok (env.text a)
    | none => .error (badRequest "wallet_address is invalid".toList)

def normalizePrimaryForAuth (primaryAddress : Option Text) : Except PushApiError Text :=
  match primaryAddress with
  | none => .ok []
  | some p =>
    if trim p = [] then .ok []
    else
      match env.parse (trim p) with
      | some a => .ok (env.text a)
      | none => .error (badRequest "primary_address is invalid".toList)

def deriveWalletAddress (walletPubkey : Text) : Except PushApiError Text := do
  let bytes ← decodeHex walletPubkey "wallet_pubkey".toList
  if bytes.length ≠ 32 then .error (badRequest "wallet_pubkey must be 32-byte hex".toList)
  else .ok (env.deriveAddress bytes)

def verifySchnorrSignature (walletPubkey preimage signature : Text) : Except PushApiError Unit := do
  let pubkey ← decodeHex walletPubkey "wallet_pubkey".toList
  if pubkey.length ≠ 32 then .error (badRequest "wallet_pubkey must be 32-byte hex".toList)
  else
    let sig ← decodeHex signature "signature".toList
    if sig.length ≠ 64 then .error (badRequest "signature must be 64-byte hex".toList)
    else if !env.isXOnlyPubkey pubkey then .error (badRequest "wallet_pubkey is malformed".toList)
    else if !env.isSchnorrSignature sig then .error (badRequest "signature is malformed".toList)
    else if env.verifySchnorr pubkey (env.digest (utf8 preimage)) sig then .ok ()
    else .error (unauthorized "Invalid Schnorr signature".toList)

/-- Against the canonical text, else against the legacy domain's. -/
def verifyEither (walletPubkey preimage signature : Text) : Except PushApiError Unit :=
  match verifySchnorrSignature env walletPubkey preimage signature with
  | .ok () => .ok ()
  | .error _ => verifySchnorrSignature env walletPubkey (legacyPreimage preimage) signature

def walletPreimage (f : PushFields) (token : Text) (groupIds capabilities : List Text)
    (format : AuthPreimageFormat) (primary pubkey address : Text) (auth : PushAuthRequest) :
    AuthPreimage where
  format := format
  nonce := trim auth.nonce
  method := f.method
  path := f.path
  deviceToken := token
  watchedAddresses := f.watchedAddresses
  watchedGroupIds := groupIds
  capabilities := capabilities
  primaryAddress := primary
  aliases := f.aliases
  walletPubkey := pubkey
  walletAddress := address
  timestampMs := auth.timestampMs
  expiresAtMs := auth.expiresAtMs

def verifyWalletBindingFromAuth (f : PushFields) (token : Text) (groupIds capabilities : List Text)
    (format : AuthPreimageFormat) (primary : Text) (auth : PushAuthRequest) :
    Except PushApiError WalletBinding := do
  let pubkey ← normalizeHexField auth.walletPubkey 32 "wallet_pubkey".toList
  let address ← normalizeWalletAddress env auth.walletAddress
  let derived ← deriveWalletAddress env pubkey
  if address ≠ derived then
    .error (unauthorized "wallet_address does not match wallet_pubkey".toList)
  else
    let preimage := buildAuthPreimage env
      (walletPreimage f token groupIds capabilities format primary pubkey address auth)
    let () ← verifyEither env pubkey preimage (trim auth.signature)
    .ok ⟨pubkey, address⟩

def decodeBase64Any (value field : Text) : Except PushApiError Bytes :=
  if trim value = [] then .error (badRequest (field ++ " must not be empty".toList))
  else
    match env.decodeBase64 (trim value) with
    | some b => .ok b
    | none => .error (badRequest (field ++ " is invalid base64".toList))

def normalizeDeviceKeyId (keyId : Text) (publicKey : Bytes) : Except PushApiError Text :=
  let normalized := toAsciiLowercase (trim keyId)
  if len normalized ≠ 64 ∨ !normalized.all isAsciiHexdigit then
    .error (badRequest "device_auth.key_id must be 32-byte hex".toList)
  else if normalized ≠ hexEncode (env.digest publicKey) then
    .error (unauthorized "device_auth.key_id does not match pubkey".toList)
  else .ok normalized

def devicePreimage (method path token keyId : Text) (counter : ℕ) (auth : PushAuthRequest) :
    DeviceAuthPreimage where
  nonce := trim auth.nonce
  method := method
  path := path
  deviceToken := token
  keyId := keyId
  counter := counter
  timestampMs := auth.timestampMs
  expiresAtMs := auth.expiresAtMs

def verifyDeviceKeyBindingFromAuth (method path token : Text) (auth : PushAuthRequest) :
    Except PushApiError (Option DeviceKeyBinding) :=
  match auth.deviceAuth with
  | none => .ok none
  | some deviceAuth =>
    if trim deviceAuth.scheme ≠ deviceAuthScheme then
      .error (unauthorized "Unsupported device auth scheme".toList)
    else if deviceAuth.counter = 0 then
      .error (badRequest "device_auth.counter must be > 0".toList)
    else do
      let publicKey ← decodeBase64Any env deviceAuth.pubkey "device_auth.pubkey".toList
      if publicKey.length ≠ 65 ∨ publicKey.head? ≠ some 4 then
        .error (badRequest "device_auth.pubkey must be uncompressed P-256 key".toList)
      else
        let keyId ← normalizeDeviceKeyId env deviceAuth.keyId publicKey
        let signature ← decodeBase64Any env deviceAuth.signature "device_auth.signature".toList
        let preimage := buildDeviceAuthPreimage env
          (devicePreimage method path token keyId deviceAuth.counter auth)
        if env.verifyP256 publicKey (utf8 preimage) signature ||
            env.verifyP256 publicKey (utf8 (legacyDevicePreimage preimage)) signature then
          .ok (some ⟨keyId, env.encodeBase64 publicKey, deviceAuth.counter⟩)
        else .error (unauthorized "Invalid device key signature".toList)

def checkPrimaryBinding (capabilities : List Text) (primary walletAddress : Text) :
    Except PushApiError Unit :=
  if (groupV1Capability ∈ capabilities ∨ primary ≠ []) ∧ primary ≠ walletAddress then
    .error (unauthorized (if groupV1Capability ∈ capabilities then
      "primary_address must match the authenticated wallet for group push".toList
      else "primary_address must match the authenticated wallet".toList))
  else .ok ()

def unsignedPushAuth (mode : PushAuthMode) (primaryAddress : Option Text) :
    Except PushApiError VerifiedPushAuth :=
  match mode with
  | .strict => .error (unauthorized "Signed auth is required for push mutations".toList)
  | .mixed =>
    if primaryAddress.any fun p => trim p ≠ [] then
      .error (unauthorized "Signed auth is required to register a primary_address".toList)
    else .ok ⟨none, none, []⟩
  | .legacy => .ok ⟨none, none, []⟩

def liftToken (r : Except Text Text) : Except PushApiError Text := r.mapError badRequest

/-- `authenticate_push_request` of a signed request, up to its nonce. -/
def verifyPushRequest (f : PushFields) (auth : PushAuthRequest) (nowMs : ℕ) :
    Except PushApiError VerifiedPushAuth := do
  let () ← validateAuthTiming auth nowMs
  let token ← liftToken (normalizeDeviceToken f.deviceToken)
  let primary ← normalizePrimaryForAuth env f.primaryAddress
  let format ← selectAuthFormat auth.authVersion f.watchedGroupIds f.capabilities
  let groupIds := f.watchedGroupIds.getD []
  let capabilities ← effectiveCapabilities format groupIds f.capabilities
  let wallet ← verifyWalletBindingFromAuth env f token groupIds capabilities format primary auth
  let () ← checkPrimaryBinding capabilities primary wallet.walletAddress
  let device ← verifyDeviceKeyBindingFromAuth env f.method f.path token auth
  .ok ⟨some wallet, device, capabilities⟩

/-- What is signed to unregister a token. -/
def unregisterFields (deviceToken : Text) : PushFields :=
  ⟨"DELETE".toList, "/v1/push/unregister".toList, deviceToken, [], none, [], none, []⟩

/-- `authenticate_unregister_request` of a signed request, up to its nonce. -/
def verifyUnregisterRequest (deviceToken : Text) (auth : PushAuthRequest) (nowMs : ℕ) :
    Except PushApiError VerifiedPushAuth := do
  let () ← validateAuthTiming auth nowMs
  let token ← liftToken (normalizeDeviceToken deviceToken)
  let format ← selectAuthFormat auth.authVersion none []
  let f := unregisterFields deviceToken
  let wallet := (verifyWalletBindingFromAuth env f token [] [] format [] auth).toOption
  let device ← verifyDeviceKeyBindingFromAuth env f.method f.path token auth
  if wallet = none ∧ device = none then
    .error (unauthorized "Valid wallet or device auth is required for unregister".toList)
  else .ok ⟨wallet, device, []⟩

end

/-! ## Nonces -/

structure NonceStore where
  expiriesByNonce : Finmap fun _ : Text => ℕ
  expiryOrder : List (ℕ × Text)

namespace NonceStore

def new : NonceStore := ⟨∅, []⟩

/-- The front of the queue, as far as it has expired, with the nonces it names. -/
def pruneFrom (nowMs : ℕ) (expiries : Finmap fun _ : Text => ℕ) : List (ℕ × Text) → NonceStore
  | [] => ⟨expiries, []⟩
  | entry :: order =>
    if nowMs < entry.1 then ⟨expiries, entry :: order⟩
    else pruneFrom nowMs (expiries.erase entry.2) order

def pruneExpired (s : NonceStore) (nowMs : ℕ) : NonceStore :=
  pruneFrom nowMs s.expiriesByNonce s.expiryOrder

/-- The oldest nonces go while there are too many. -/
def evictFrom (expiries : Finmap fun _ : Text => ℕ) : List (ℕ × Text) → NonceStore
  | [] => ⟨expiries, []⟩
  | entry :: order =>
    if maxNonceStoreEntries < expiries.keys.card then evictFrom (expiries.erase entry.2) order
    else ⟨expiries, entry :: order⟩

/-- `issue`, once `random_nonce_hex` has drawn a nonce that is not in the store. -/
def issue (s : NonceStore) (random : Bytes) (nowMs : ℕ) : NonceStore :=
  let nonce := hexEncode random
  let expiresAtMs := saturatingAdd nowMs nonceTtlMs
  let pruned := s.pruneExpired nowMs
  evictFrom (pruned.expiriesByNonce.insert nonce expiresAtMs)
    (pruned.expiryOrder ++ [(expiresAtMs, nonce)])

def consume (s : NonceStore) (nonce : Text) (nowMs : ℕ) : NonceStore × Except PushApiError ℕ :=
  let pruned := s.pruneExpired nowMs
  match pruned.expiriesByNonce.lookup nonce with
  | none => (pruned, .error (unauthorized "nonce is invalid, expired, or already used".toList))
  | some expiresAtMs =>
    (⟨pruned.expiriesByNonce.erase nonce, pruned.expiryOrder⟩,
      if expiresAtMs < nowMs then .error (unauthorized "nonce has expired".toList)
      else .ok expiresAtMs)

end NonceStore

def consumeNonce (s : NonceStore) (auth : PushAuthRequest) (nowMs : ℕ) :
    NonceStore × Except PushApiError Unit :=
  let (s, r) := s.consume (trim auth.nonce) nowMs
  (s, r.bind fun expiry =>
    if expiry ≠ auth.expiresAtMs then
      .error (unauthorized "nonce expiry does not match signed payload".toList)
    else .ok ())

/-! ## Authentication -/

section
variable {Address Payload : Type} (env : AuthEnv Address Payload)

/-- The nonce of a verified request. -/
def withNonce (s : NonceStore) (auth : PushAuthRequest) (nowMs : ℕ)
    (verified : Except PushApiError VerifiedPushAuth) :
    NonceStore × Except PushApiError VerifiedPushAuth :=
  match verified with
  | .error e => (s, .error e)
  | .ok v =>
    let consumed := consumeNonce s auth nowMs
    (consumed.1, consumed.2.map fun _ => v)

def authenticatePushRequest (mode : PushAuthMode) (s : NonceStore) (f : PushFields)
    (auth : Option PushAuthRequest) (nowMs : ℕ) : NonceStore × Except PushApiError VerifiedPushAuth :=
  match auth with
  | none =>
    (s, if f.watchedGroupIds.isSome ∨ f.capabilities ≠ [] then
      .error (unauthorized "Signed auth is required for group push registration".toList)
      else unsignedPushAuth mode f.primaryAddress)
  | some auth => withNonce s auth nowMs (verifyPushRequest env f auth nowMs)

def authenticateUnregisterRequest (mode : PushAuthMode) (s : NonceStore) (deviceToken : Text)
    (auth : Option PushAuthRequest) (nowMs : ℕ) : NonceStore × Except PushApiError VerifiedPushAuth :=
  match auth with
  | none =>
    (s, match mode with
      | .strict => .error (unauthorized "Signed auth is required for push mutations".toList)
      | .legacy | .mixed => .ok ⟨none, none, []⟩)
  | some auth => withNonce s auth nowMs (verifyUnregisterRequest env deviceToken auth nowMs)

end

end KaChatIndexer.PushAuth

import KaChatIndexer.PushAuth
import Mathlib.Data.List.AList

/-!
# The push registry

What the registry actor keeps of each device, the rows by which devices are looked up, and the caches
that filter what a lookup finds.
-/
namespace KaChatIndexer.PushRegistry
open ByteStrings KaText PushFields PushAuth

def maxPlatformLenBytes : ℕ := 16

def supportedPlatforms : List Text := ["ios".toList, "macos".toList, "android".toList, "web".toList]

def maxWatchOnlyAddresses : ℕ := 200

def knownAppTopics : List Text :=
  ["com.kachat.app".toList, "com.kachat.kaposts".toList, "com.kachat.wallet".toList,
    "kapay.kachat.app".toList, "kapost.kachat.app".toList]

def androidNotificationChannels : List Text :=
  ["kachat_messages_sound_vibrate".toList, "kachat_messages_sound_only".toList,
    "kachat_messages_vibrate_only".toList, "kachat_messages_silent".toList]

def lastSeenBaseRefreshSecs : ℕ := 3 * 24 * 60 * 60

structure WebPushSubscription where
  endpoint : Text
  p256dh : Text
  auth : Text
  deriving DecidableEq

/-- `Ext` is what a device asks for of broadcasts and KaPosts: channels, hidden senders, its KaPosts
key, the kinds it wants and the authors it follows. -/
structure DeviceRegistration (Ext : Type) where
  deviceToken : Text
  platform : Text
  watchedAddresses : List Text
  watchedGroupIds : List Text
  capabilities : List Text
  aliases : List Text
  primaryAddress : Option Text
  walletPubkey : Option Text
  walletAddress : Option Text
  deviceKeyId : Option Text
  deviceKeyPublicKeyB64 : Option Text
  deviceKeyCounter : Option ℕ
  extension : Ext
  watchOnlyAddresses : List Text
  apnsEnvironment : Option Text
  voipToken : Option Text
  webPush : Option WebPushSubscription
  apnsTopic : Option Text
  androidChannelId : Option Text
  createdAt : ℕ
  lastSeen : ℕ

/-- The arguments of `register` and `update`, but for the platform. -/
structure RegistrationArgs (Ext : Type) where
  token : Text
  watchedAddresses : List Text
  watchedGroupIds : List Text
  capabilities : List Text
  primaryAddress : Option Text
  aliases : List Text
  extension : Ext
  watchOnlyAddresses : List Text
  apnsEnvironment : Option Text
  voipToken : Option Text
  webPush : Option WebPushSubscription
  apnsTopic : Option Text
  androidChannelId : Option Text
  walletBinding : Option WalletBinding
  deviceKeyBinding : Option DeviceKeyBinding

structure RegistryEnv (Address Payload : Type) extends AuthEnv Address Payload where
  /-- `allowed_apns_topics` -/
  allowedApnsTopics : List Text
  /-- `last_seen_refresh_jitter_secs` -/
  lastSeenRefreshJitterSecs : Text → ℕ → ℕ
  /-- `URL_SAFE_NO_PAD.encode` -/
  encodeBase64Url : Bytes → Text

/-- The partitions, the caches, and the set of watch-only addresses that the block processor is given.
A partition of rows is a set of keys; the order of the keys is left out. -/
structure Registry (Payload Ext : Type) where
  devices : AList fun _ : Text => DeviceRegistration Ext
  watched : List (Payload × Text)
  watchedGroups : List (Bytes × Text)
  primaryAddresses : List (Payload × Text)
  aliasCache : AList fun _ : Text => List Text
  primaryCache : AList fun _ : Text => Option Payload
  capabilityCache : AList fun _ : Text => List Text
  watchOnlyGlobal : List Payload

def Registry.new {Payload Ext : Type} : Registry Payload Ext := ⟨∅, [], [], [], ∅, ∅, ∅, []⟩

/-! ## Normalisation -/

def normalizePlatform (platform : Text) : Except Text Text :=
  let normalized := toAsciiLowercase (trim platform)
  if normalized = [] then .error "platform must not be empty".toList
  else if maxPlatformLenBytes < len normalized then .error "platform is too long".toList
  else if normalized ∉ supportedPlatforms then .error "Unsupported platform".toList
  else .ok normalized

/-- The platform of a `register`; an `update` gives none. -/
def normalizeGivenPlatform : Option Text → Except Text (Option Text)
  | none => .ok none
  | some platform => (normalizePlatform platform).map some

def normalizeWalletPubkey (pubkey : Text) : Except Text Text :=
  let normalized := toAsciiLowercase (trim pubkey)
  if len normalized ≠ walletPubkeyHexLen then .error "wallet_pubkey must be 32-byte hex".toList
  else if !normalized.all isAsciiHexdigit then .error "wallet_pubkey must be hex".toList
  else .ok normalized

def normalizeApnsEnvironment (environment : Option Text) : Option Text :=
  environment.bind fun e =>
    let e := toAsciiLowercase (trim e)
    if e = "development".toList ∨ e = "sandbox".toList then some "sandbox".toList
    else if e = "production".toList then some "production".toList
    else none

def normalizeVoipToken (token : Option Text) : Option Text :=
  token.bind fun t => if trim t = [] then none else some (trim t)

def normalizeAndroidChannelId (platform : Text) (requested existing : Option Text) : Option Text :=
  if platform ≠ "android".toList then none
  else
    match requested with
    | some channel =>
      if trim channel ∈ androidNotificationChannels then some (trim channel) else none
    | none => existing

section
variable {Address Payload Ext : Type} (env : RegistryEnv Address Payload)

def normalizeApnsTopic (topic : Option Text) : Option Text :=
  topic.bind fun t =>
    if trim t ∈ knownAppTopics ∨ trim t ∈ env.allowedApnsTopics then some (trim t) else none

/-- An entry is skipped when it is no address; at the limit the rest is dropped. -/
def watchOnlyFrom (acc : List Text) : List Text → List Text
  | [] => acc
  | a :: rest =>
    match env.parse (trim a) with
    | none => watchOnlyFrom acc rest
    | some rpc =>
      match env.payload rpc with
      | none => watchOnlyFrom acc rest
      | some _ =>
        let acc := if env.text rpc ∈ acc then acc else acc ++ [env.text rpc]
        if maxWatchOnlyAddresses ≤ acc.length then acc else watchOnlyFrom acc rest

def normalizeWatchOnlyAddresses (addresses : List Text) : List Text :=
  (watchOnlyFrom env [] addresses).insertionSort (· ≤ ·)

def normalizePrimary (address : Option Text) : Except Text (Option (Text × Payload)) :=
  match normalizePrimaryAddress env.toAddressEnv address with
  | none => .ok none
  | some a => (addressToPayload env.toAddressEnv a).map fun payload => some (a, payload)

/-- The fields of a request as the registry keeps them, with what the index keeps of each. -/
structure Normalized (Payload : Type) where
  platform : Option Text
  token : Text
  addresses : List (Text × Payload)
  groupIds : List (Text × Bytes)
  capabilities : List Text
  aliases : List Text
  primary : Option (Text × Payload)
  watchOnly : List Text

def nothingToWatch : Text :=
  "nothing to watch: watched_addresses, watched_group_ids, watch_only_addresses and primary_address are all empty".toList

def normalizeArgs (platform : Option Text) (args : RegistrationArgs Ext) :
    Except Text (Normalized Payload) := do
  let () ← validateRegistrationLimits args.watchedAddresses args.watchedGroupIds args.capabilities
    args.aliases
  let platform ← normalizeGivenPlatform platform
  let token ← normalizeDeviceToken args.token
  let addresses ← normalizeAddresses env.toAddressEnv args.watchedAddresses
  let groupIds ← normalizeGroupIds env.toAddressEnv args.watchedGroupIds
  let capabilities ← normalizeCapabilities args.capabilities
  let primary ← normalizePrimary env args.primaryAddress
  let watchOnly := normalizeWatchOnlyAddresses env args.watchOnlyAddresses
  if addresses = [] ∧ groupIds = [] ∧ watchOnly = [] ∧ primary.isNone then .error nothingToWatch
  else .ok ⟨platform, token, addresses, groupIds, capabilities, normalizeAliasesVec args.aliases,
    primary, watchOnly⟩

end

/-! ## Bindings -/

def boundToAnother : Text := "device token is bound to another wallet".toList

def authIsRequired : Text := "auth is required for a wallet-bound device token".toList

section
variable {Ext : Type}

def registrationWalletBinding (r : DeviceRegistration Ext) : Option WalletBinding :=
  r.walletPubkey.bind fun pubkey => r.walletAddress.map fun address => ⟨pubkey, address⟩

def registrationDeviceKeyBinding (r : DeviceRegistration Ext) : Option DeviceKeyBinding :=
  r.deviceKeyId.bind fun keyId => r.deviceKeyPublicKeyB64.map fun key =>
    ⟨keyId, key, r.deviceKeyCounter.getD 0⟩

def resolveWalletBinding (existing : Option (DeviceRegistration Ext))
    (provided : Option WalletBinding) : Except Text (Option WalletBinding) :=
  match existing.bind registrationWalletBinding, provided with
  | some bound, some provided => do
      let pubkey ← normalizeWalletPubkey provided.walletPubkey
      if pubkey ≠ bound.walletPubkey ∨ provided.walletAddress ≠ bound.walletAddress then
        .error boundToAnother
      else .ok (some bound)
  | some _, none => .error authIsRequired
  | none, some provided => do
      let pubkey ← normalizeWalletPubkey provided.walletPubkey
      .ok (some ⟨pubkey, provided.walletAddress⟩)
  | none, none => .ok none

def resolveDeviceKeyBinding (existing : Option (DeviceRegistration Ext))
    (provided : Option DeviceKeyBinding) : Except Text (Option DeviceKeyBinding) :=
  match existing.bind registrationDeviceKeyBinding, provided with
  | some bound, some provided =>
    if bound.keyId = provided.keyId ∧ provided.counter ≤ bound.counter then
      .error "device key counter did not increase".toList
    else .ok (some provided)
  | some bound, none => .ok (some bound)
  | none, provided => .ok provided

def validateUnregisterBinding (existing : Option (DeviceRegistration Ext))
    (walletPubkey : Option Text) : Except Text Unit :=
  match existing.bind (·.walletPubkey), walletPubkey with
  | none, _ => .ok ()
  | some _, none => .error authIsRequired
  | some bound, some provided => if bound ≠ provided then .error boundToAnother else .ok ()

def deviceBindingMatchesRegistration (registration : Option (DeviceRegistration Ext))
    (binding : DeviceKeyBinding) : Bool :=
  match registration with
  | none => false
  | some r =>
    match r.deviceKeyId, r.deviceKeyPublicKeyB64 with
    | some keyId, some key =>
      keyId == binding.keyId && key == binding.publicKeyB64 &&
        decide (r.deviceKeyCounter.getD 0 < binding.counter)
    | _, _ => true

end

/-! ## Rows -/

section
variable {α : Type} [DecidableEq α]

def insertRows (rows added : List α) : List α := added.foldl (fun rows row => rows.insert row) rows

def removeRows (rows gone : List α) : List α := rows.filter (· ∉ gone)

theorem mem_insertRows {rows added : List α} {x : α} :
    x ∈ insertRows rows added ↔ x ∈ rows ∨ x ∈ added := by
  induction added generalizing rows with
  | nil => simp [insertRows]
  | cons a added ih =>
    have h := @ih (rows.insert a)
    simp only [insertRows, List.foldl_cons] at h ⊢
    rw [h, List.mem_insert_iff, List.mem_cons]
    tauto

theorem mem_removeRows {rows gone : List α} {x : α} : x ∈ removeRows rows gone ↔ x ∈ rows ∧ x ∉ gone := by
  simp [removeRows]

/-- The strings that a device's list loses leave their rows, and those it gains enter theirs. -/
def reindex (decode : Text → Option α) (rows : List (α × Text)) (token : Text) (old : List Text)
    (new : List (Text × α)) : List (α × Text) :=
  if old = new.map Prod.fst then rows
  else
    let gone := (old.filter fun t => t ∉ new.map Prod.fst).filterMap decode
    let added := (new.filter fun e => e.1 ∉ old).map Prod.snd
    insertRows (removeRows rows (gone.map fun key => (key, token))) (added.map fun key => (key, token))

end

def okToOption {α : Type} : Except Text α → Option α
  | .ok a => some a
  | .error _ => none

/-! ## Operations -/

section
variable {Address Payload Ext : Type} [DecidableEq Payload] [DecidableEq Ext]
  (env : RegistryEnv Address Payload)

def payloadOf (address : Text) : Option Payload := okToOption (addressToPayload env.toAddressEnv address)

def groupIdOf (groupId : Text) : Option Bytes := okToOption (decodeGroupIdHex env.toAddressEnv groupId)

def aliasSet (aliases : List Text) : List Text := normalizeAliasesVec aliases

def updateCaches (r : Registry Payload Ext) (token : Text) (aliases : List Text)
    (primary : Option Text) (capabilities : List Text) : Registry Payload Ext :=
  { r with
    aliasCache := r.aliasCache.insert token (aliasSet aliases)
    primaryCache := r.primaryCache.insert token (primary.bind (payloadOf env))
    capabilityCache := r.capabilityCache.insert token (sortedSet capabilities) }

def rebuildWatchOnlyGlobal (r : Registry Payload Ext) : Registry Payload Ext :=
  { r with
    watchOnlyGlobal := (r.devices.entries.flatMap fun entry =>
      entry.2.watchOnlyAddresses.filterMap (payloadOf env)).dedup }

def platformOf (n : Normalized Payload) (existing : Option (DeviceRegistration Ext)) : Text :=
  match n.platform, existing with
  | some platform, _ => platform
  | none, some old => old.platform
  | none, none => "ios".toList

/-- What is stored of a request, beside what was. -/
def buildRegistration (n : Normalized Payload) (args : RegistrationArgs Ext)
    (existing : Option (DeviceRegistration Ext)) (wallet : Option WalletBinding)
    (device : Option DeviceKeyBinding) (now : ℕ) : DeviceRegistration Ext where
  deviceToken := n.token
  platform := platformOf n existing
  watchedAddresses := n.addresses.map Prod.fst
  watchedGroupIds := n.groupIds.map Prod.fst
  capabilities := n.capabilities
  aliases := n.aliases
  primaryAddress := n.primary.map Prod.fst
  walletPubkey := wallet.map (·.walletPubkey)
  walletAddress := wallet.map (·.walletAddress)
  deviceKeyId := device.map (·.keyId)
  deviceKeyPublicKeyB64 := device.map (·.publicKeyB64)
  deviceKeyCounter := device.map (·.counter)
  extension := args.extension
  watchOnlyAddresses := n.watchOnly
  apnsEnvironment := (normalizeApnsEnvironment args.apnsEnvironment).or (existing.bind (·.apnsEnvironment))
  voipToken := (normalizeVoipToken args.voipToken).or (existing.bind (·.voipToken))
  webPush := args.webPush.or (existing.bind (·.webPush))
  apnsTopic := (normalizeApnsTopic env args.apnsTopic).or (existing.bind (·.apnsTopic))
  androidChannelId := normalizeAndroidChannelId (platformOf n existing) args.androidChannelId
    (existing.bind (·.androidChannelId))
  createdAt := (existing.map (·.createdAt)).getD now
  lastSeen := now

/-- Everything but the two times is as stored; aliases and primary address are compared as the
normalisers see them. -/
def unchanged (old new : DeviceRegistration Ext) : Bool :=
  old.watchedAddresses == new.watchedAddresses && old.watchedGroupIds == new.watchedGroupIds &&
  old.capabilities == new.capabilities && old.platform == new.platform &&
  aliasSet old.aliases == aliasSet new.aliases &&
  normalizePrimaryAddress env.toAddressEnv old.primaryAddress == new.primaryAddress &&
  old.walletPubkey == new.walletPubkey && old.walletAddress == new.walletAddress &&
  old.deviceKeyId == new.deviceKeyId && old.deviceKeyPublicKeyB64 == new.deviceKeyPublicKeyB64 &&
  old.deviceKeyCounter == new.deviceKeyCounter && decide (old.extension = new.extension) &&
  old.watchOnlyAddresses == new.watchOnlyAddresses && old.apnsEnvironment == new.apnsEnvironment &&
  old.voipToken == new.voipToken && old.webPush == new.webPush && old.apnsTopic == new.apnsTopic &&
  old.androidChannelId == new.androidChannelId

def shouldRefreshLastSeen (token : Text) (lastSeen now : ℕ) : Bool :=
  lastSeenBaseRefreshSecs + env.lastSeenRefreshJitterSecs token lastSeen ≤ now - lastSeen

/-- The rows of a device's primary address. -/
def reindexPrimary (rows : List (Payload × Text)) (token : Text)
    (existing : Option (DeviceRegistration Ext)) (primary : Option (Text × Payload)) :
    List (Payload × Text) :=
  match existing with
  | none => insertRows rows (primary.toList.map fun p => (p.2, token))
  | some old =>
    if normalizePrimaryAddress env.toAddressEnv old.primaryAddress = primary.map Prod.fst then rows
    else
      insertRows
        (removeRows rows ((old.primaryAddress.bind (payloadOf env)).toList.map fun p => (p, token)))
        (primary.toList.map fun p => (p.2, token))

/-- The write transaction of a `register` or an `update`. -/
def writeRegistration (r : Registry Payload Ext) (n : Normalized Payload)
    (existing : Option (DeviceRegistration Ext)) (registration : DeviceRegistration Ext) :
    Registry Payload Ext :=
  { r with
    devices := r.devices.insert n.token registration
    watched := reindex (payloadOf env) r.watched n.token
      ((existing.map (·.watchedAddresses)).getD []) n.addresses
    watchedGroups := reindex (groupIdOf env) r.watchedGroups n.token
      ((existing.map (·.watchedGroupIds)).getD []) n.groupIds
    primaryAddresses := reindexPrimary env r.primaryAddresses n.token existing n.primary }

def prepare (r : Registry Payload Ext) (platform : Option Text) (args : RegistrationArgs Ext)
    (now : ℕ) : Except Text (Normalized Payload × DeviceRegistration Ext) := do
  let n ← normalizeArgs env platform args
  let existing := r.devices.lookup n.token
  let wallet ← resolveWalletBinding existing args.walletBinding
  let device ← resolveDeviceKeyBinding existing args.deviceKeyBinding
  .ok (n, buildRegistration env n args existing wallet device now)

/-- `register` with a platform, `update` without; `commit` is what the commit comes to. -/
def save (r : Registry Payload Ext) (platform : Option Text) (args : RegistrationArgs Ext) (now : ℕ)
    (commit : Except Text Unit) : Registry Payload Ext × Except Text Unit :=
  match prepare env r platform args now with
  | .error e => (r, .error e)
  | .ok (n, registration) =>
    let existing := r.devices.lookup n.token
    let cached (r : Registry Payload Ext) : Registry Payload Ext :=
      updateCaches env r n.token n.aliases (n.primary.map Prod.fst) n.capabilities
    if existing.any fun old => unchanged env old registration &&
        !shouldRefreshLastSeen env n.token old.lastSeen now then
      (cached r, .ok ())
    else
      match commit with
      | .error e => (r, .error e)
      | .ok () =>
        let written := cached (writeRegistration env r n existing registration)
        let before := (existing.map (·.watchOnlyAddresses)).getD []
        (if before ≠ n.watchOnly then rebuildWatchOnlyGlobal env written else written, .ok ())

def register (r : Registry Payload Ext) (platform : Text) (args : RegistrationArgs Ext) (now : ℕ)
    (commit : Except Text Unit) : Registry Payload Ext × Except Text Unit :=
  save env r (some platform) args now commit

def update (r : Registry Payload Ext) (args : RegistrationArgs Ext) (now : ℕ)
    (commit : Except Text Unit) : Registry Payload Ext × Except Text Unit :=
  save env r none args now commit

/-- The write transaction of an unregistration. -/
def eraseRegistration (r : Registry Payload Ext) (token : Text) : Registry Payload Ext :=
  match r.devices.lookup token with
  | none => { r with devices := r.devices.erase token }
  | some old =>
    { r with
      devices := r.devices.erase token
      watched := removeRows r.watched
        ((old.watchedAddresses.filterMap (payloadOf env)).map fun p => (p, token))
      watchedGroups := removeRows r.watchedGroups
        ((old.watchedGroupIds.filterMap (groupIdOf env)).map fun g => (g, token))
      primaryAddresses := removeRows r.primaryAddresses
        ((old.primaryAddress.bind (payloadOf env)).toList.map fun p => (p, token)) }

def clearCaches (r : Registry Payload Ext) (token : Text) : Registry Payload Ext :=
  { r with
    aliasCache := r.aliasCache.erase token
    primaryCache := r.primaryCache.erase token
    capabilityCache := r.capabilityCache.erase token }

def unregisterInner (r : Registry Payload Ext) (token : Text) (walletPubkey : Option Text)
    (enforceBinding : Bool) (commit : Except Text Unit) : Registry Payload Ext × Except Text Unit :=
  match normalizeDeviceToken token with
  | .error e => (r, .error e)
  | .ok token =>
    let existing := r.devices.lookup token
    match if enforceBinding then validateUnregisterBinding existing walletPubkey else .ok () with
    | .error e => (r, .error e)
    | .ok () =>
      match commit with
      | .error e => (r, .error e)
      | .ok () =>
        let erased := clearCaches (eraseRegistration env r token) token
        (if existing.any fun old => old.watchOnlyAddresses ≠ [] then rebuildWatchOnlyGlobal env erased
          else erased, .ok ())

def normalizeGivenPubkey : Option Text → Except Text (Option Text)
  | none => .ok none
  | some pubkey => (normalizeWalletPubkey pubkey).map some

/-- A failure that the device key may go round. -/
def isBindingFailure (e : Text) : Bool :=
  containsText (toAsciiLowercase e) "bound to another wallet".toList ||
    containsText (toAsciiLowercase e) "auth is required".toList

def unregisterAuthenticated (r : Registry Payload Ext) (token : Text) (walletPubkey : Option Text)
    (deviceBinding : Option DeviceKeyBinding) (commit retry : Except Text Unit) :
    Registry Payload Ext × Except Text Unit :=
  match normalizeDeviceToken token with
  | .error e => (r, .error e)
  | .ok token =>
    let existing := r.devices.lookup token
    let allowDeviceFallback := deviceBinding.any (deviceBindingMatchesRegistration existing)
    match normalizeGivenPubkey walletPubkey with
    | .error e => (r, .error e)
    | .ok (some pubkey) =>
      let first := unregisterInner env r token (some pubkey) true commit
      match first.2 with
      | .ok () => first
      | .error e =>
        if allowDeviceFallback && isBindingFailure e then
          unregisterInner env first.1 token none false retry
        else first
    | .ok none => unregisterInner env r token none (!allowDeviceFallback) commit

def setApnsEnvironment (r : Registry Payload Ext) (token environment : Text)
    (commit : Except Text Unit) : Registry Payload Ext × Except Text Unit :=
  match normalizeDeviceToken token with
  | .error e => (r, .error e)
  | .ok token =>
    match r.devices.lookup token with
    | none => (r, .ok ())
    | some old =>
      if old.apnsEnvironment = some environment then (r, .ok ())
      else
        match commit with
        | .error e => (r, .error e)
        | .ok () =>
          ({ r with devices := r.devices.insert token { old with apnsEnvironment := some environment } },
            .ok ())

/-! ## Lookups -/

/-- The token of an index key. -/
def tokenFromIndexKey (token : Text) : Option Text :=
  if token = [] ∨ !token.all isTokenChar then none else some token

/-- The tokens of the rows under a key. -/
def rowTokens {α : Type} [DecidableEq α] (rows : List (α × Text)) (key : α) : List Text :=
  (rows.filter fun row => row.1 = key).map Prod.snd

/-- Every token, or an error when a key holds none. -/
def decodeAll (e : Text) : List Text → Except Text (List Text)
  | [] => .ok []
  | t :: rest => do
      let token ← okOr e (tokenFromIndexKey t)
      let tokens ← decodeAll e rest
      .ok (token :: tokens)

def tokensForAddress (r : Registry Payload Ext) (address : Payload) : List Text :=
  (rowTokens r.watched address).filterMap tokenFromIndexKey

def tokensForGroup (r : Registry Payload Ext) (groupId : Bytes) : Except Text (List Text) :=
  decodeAll "Invalid group watcher index key".toList (rowTokens r.watchedGroups groupId)

def tokensForPrimaryAddress (r : Registry Payload Ext) (address : Payload) : Except Text (List Text) :=
  decodeAll "Invalid primary address index key".toList (rowTokens r.primaryAddresses address)

def pruneAddressWatchers (r : Registry Payload Ext) (address : Payload) (commit : Except Text Unit) :
    Registry Payload Ext × Except Text Unit :=
  match commit with
  | .error e => (r, .error e)
  | .ok () => ({ r with watched := r.watched.filter fun row => row.1 ≠ address }, .ok ())

def hydrateFilterCaches (r : Registry Payload Ext) (token : Text) : Registry Payload Ext :=
  match r.devices.lookup token with
  | none => r
  | some old => updateCaches env r token old.aliases old.primaryAddress old.capabilities

def tokenAllowsAlias (r : Registry Payload Ext) (token name : Text) : Registry Payload Ext × Bool :=
  match r.aliasCache.lookup token with
  | some aliases => (r, aliases = [] || name ∈ aliases)
  | none =>
    let r := hydrateFilterCaches env r token
    (r, match r.aliasCache.lookup token with
      | some aliases => aliases = [] || name ∈ aliases
      | none => false)

def tokenPrimaryMatches (r : Registry Payload Ext) (token : Text) (receiver : Payload) :
    Registry Payload Ext × Bool :=
  match r.primaryCache.lookup token with
  | some primary => (r, primary = some receiver)
  | none =>
    let r := hydrateFilterCaches env r token
    (r, r.primaryCache.lookup token = some (some receiver))

/-- A filter that is asked for, or none. -/
def passes {α : Type} (check : Registry Payload Ext → α → Registry Payload Ext × Bool)
    (r : Registry Payload Ext) : Option α → Registry Payload Ext × Bool
  | none => (r, true)
  | some a => check r a

def filterTokens (name : Option Text) (receiver : Option Payload) (r : Registry Payload Ext) :
    List Text → Registry Payload Ext × List Text
  | [] => (r, [])
  | token :: rest =>
    let allowed := passes (fun r => tokenAllowsAlias env r token) r name
    if allowed.2 then
      let primary := passes (fun r => tokenPrimaryMatches env r token) allowed.1 receiver
      let others := filterTokens name receiver primary.1 rest
      (others.1, if primary.2 then token :: others.2 else others.2)
    else filterTokens name receiver allowed.1 rest

def matchingTokens (r : Registry Payload Ext) (watchedAddress : Payload) (name : Option Text)
    (receiver : Option Payload) (commit : Except Text Unit) :
    Registry Payload Ext × Except Text (List Text) :=
  let tokens := tokensForAddress r watchedAddress
  if tokens = [] then
    let pruned := pruneAddressWatchers r watchedAddress commit
    (pruned.1, pruned.2.map fun () => [])
  else
    let filtered := filterTokens env name receiver r tokens
    (filtered.1, .ok filtered.2)

def watchOnlyTokens (r : Registry Payload Ext) (address : Payload) (senders : List Payload) :
    List Text :=
  r.devices.entries.filterMap fun entry =>
    let payloads := entry.2.watchOnlyAddresses.filterMap (payloadOf env)
    if address ∈ payloads ∧ ¬payloads.any (· ∈ senders) then some entry.2.deviceToken else none

/-! ## Commands -/

variable (Payload Ext) in
inductive Command
  | register (platform : Text) (args : RegistrationArgs Ext) (now : ℕ) (commit : Except Text Unit)
  | update (args : RegistrationArgs Ext) (now : ℕ) (commit : Except Text Unit)
  | unregister (token : Text) (commit : Except Text Unit)
  | unregisterAuthenticated (token : Text) (walletPubkey : Option Text)
      (deviceBinding : Option DeviceKeyBinding) (commit retry : Except Text Unit)
  | matchTokens (watchedAddress : Payload) (name : Option Text) (receiver : Option Payload)
      (commit : Except Text Unit)
  | matchGroupTokens (groupId : Bytes)
  | matchGroupControlTokens (sender : Payload) (recipient : Option Payload)
  | matchWatchOnlyTokens (address : Payload) (senders : List Payload)
  | setApnsEnvironment (token environment : Text) (commit : Except Text Unit)

def step (r : Registry Payload Ext) : Command Payload Ext → Registry Payload Ext
  | .register platform args now commit => (register env r platform args now commit).1
  | .update args now commit => (update env r args now commit).1
  | .unregister token commit => (unregisterInner env r token none false commit).1
  | .unregisterAuthenticated token walletPubkey deviceBinding commit retry =>
      (unregisterAuthenticated env r token walletPubkey deviceBinding commit retry).1
  | .matchTokens address name receiver commit => (matchingTokens env r address name receiver commit).1
  | .matchGroupTokens _ | .matchGroupControlTokens _ _ | .matchWatchOnlyTokens _ _ => r
  | .setApnsEnvironment token environment commit => (setApnsEnvironment r token environment commit).1

def run (r : Registry Payload Ext) (commands : List (Command Payload Ext)) : Registry Payload Ext :=
  commands.foldl (step env) r

end

end KaChatIndexer.PushRegistry

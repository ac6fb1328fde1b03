import KaChatIndexer.PushSigned
import KaChatIndexer.PushStored

/-!
# What a signature covers

Two requests that are signed alike, and what the registry stores of each.
-/
namespace KaChatIndexer.PushCoverage
open ByteStrings KaText PushFields PushAuth PushRegistry PushApi PushSigned PushStored Fallible

/-! ## Issued nonces -/

/-- A store after any nonces are issued and consumed. -/
inductive Reached : NonceStore → Prop
  | new : Reached NonceStore.new
  | issue {s : NonceStore} (h : Reached s) (random : Bytes) (nowMs : ℕ) : Reached (s.issue random nowMs)
  | consume {s : NonceStore} (h : Reached s) (nonce : Text) (nowMs : ℕ) :
      Reached (s.consume nonce nowMs).1

theorem lookup_pruneFrom {nowMs : ℕ} {expiries : Finmap fun _ : Text => ℕ} {order : List (ℕ × Text)}
    {nonce : Text} {expiry : ℕ}
    (h : (NonceStore.pruneFrom nowMs expiries order).expiriesByNonce.lookup nonce = some expiry) :
    expiries.lookup nonce = some expiry := by
  induction order generalizing expiries with
  | nil => exact h
  | cons entry order ih =>
    unfold NonceStore.pruneFrom at h
    split at h
    · exact h
    · have herased := ih h
      by_cases hne : nonce = entry.2
      · rw [hne, Finmap.lookup_erase] at herased
        cases herased
      · rwa [Finmap.lookup_erase_ne hne] at herased

theorem lookup_evictFrom {expiries : Finmap fun _ : Text => ℕ} {order : List (ℕ × Text)} {nonce : Text}
    {expiry : ℕ} (h : (NonceStore.evictFrom expiries order).expiriesByNonce.lookup nonce = some expiry) :
    expiries.lookup nonce = some expiry := by
  induction order generalizing expiries with
  | nil => exact h
  | cons entry order ih =>
    unfold NonceStore.evictFrom at h
    split at h
    · have herased := ih h
      by_cases hne : nonce = entry.2
      · rw [hne, Finmap.lookup_erase] at herased
        cases herased
      · rwa [Finmap.lookup_erase_ne hne] at herased
    · exact h

/-- What a store holds after a nonce is issued is that nonce or was there before. -/
theorem lookup_issue {s : NonceStore} {random : Bytes} {nowMs : ℕ} {nonce : Text} {expiry : ℕ}
    (h : (s.issue random nowMs).expiriesByNonce.lookup nonce = some expiry) :
    (nonce = hexEncode random ∧ expiry = saturatingAdd nowMs nonceTtlMs) ∨
      s.expiriesByNonce.lookup nonce = some expiry := by
  have hinsert := lookup_evictFrom h
  by_cases hne : nonce = hexEncode random
  · rw [hne, Finmap.lookup_insert] at hinsert
    exact .inl ⟨hne, (Option.some.inj hinsert).symm⟩
  · rw [Finmap.lookup_insert_of_ne _ hne] at hinsert
    exact .inr (lookup_pruneFrom hinsert)

/-- A nonce that is consumed is gone, and the rest of the store was there before. -/
theorem lookup_consume {s : NonceStore} {nonce nonce' : Text} {nowMs expiry : ℕ}
    (h : (s.consume nonce nowMs).1.expiriesByNonce.lookup nonce' = some expiry) :
    s.expiriesByNonce.lookup nonce' = some expiry ∧
      (nonce' = nonce → ∀ e, (s.consume nonce nowMs).2 ≠ .ok e) := by
  unfold NonceStore.consume at h ⊢
  dsimp only at h ⊢
  split at h
  · next hnone =>
    refine ⟨lookup_pruneFrom h, fun _ e => ?_⟩
    exact nofun
  · next found hfound =>
    by_cases hne : nonce' = nonce
    · rw [hne, Finmap.lookup_erase] at h
      cases h
    · rw [Finmap.lookup_erase_ne hne] at h
      exact ⟨lookup_pruneFrom h, fun heq => absurd heq hne⟩

theorem consume_ok {s : NonceStore} {nonce : Text} {nowMs expiry : ℕ}
    (h : (s.consume nonce nowMs).2 = .ok expiry) :
    s.expiriesByNonce.lookup nonce = some expiry ∧ nowMs ≤ expiry := by
  unfold NonceStore.consume at h
  dsimp only at h
  split at h
  · cases h
  · next found hfound =>
    dsimp only at h
    split at h
    · cases h
    · next hlive =>
      obtain rfl := Except.ok.inj h
      exact ⟨lookup_pruneFrom hfound, by omega⟩

/-- Every nonce in a store is hex that the server wrote. -/
theorem Reached.no_feed {s : NonceStore} (h : Reached s) {nonce : Text} {expiry : ℕ}
    (hlookup : s.expiriesByNonce.lookup nonce = some expiry) : '\n' ∉ nonce := by
  induction h with
  | new => cases hlookup
  | issue h random nowMs ih =>
    rcases lookup_issue hlookup with ⟨rfl, -⟩ | hbefore
    · exact hexEncode_clean random
    · exact ih hbefore
  | consume h nonce nowMs ih => exact ih (lookup_consume hlookup).1

theorem of_withNonce {s : NonceStore} {auth : PushAuthRequest} {nowMs : ℕ}
    {verified : Except PushApiError VerifiedPushAuth} {v : VerifiedPushAuth}
    (h : (withNonce s auth nowMs verified).2 = .ok v) :
    verified = .ok v ∧ ∃ expiry, (s.consume (trim auth.nonce) nowMs).2 = .ok expiry := by
  cases verified with
  | error e => cases h
  | ok w =>
    obtain ⟨u, hu, rfl⟩ := map_ok h
    obtain ⟨expiry, hexpiry, -⟩ := bind_ok hu
    exact ⟨rfl, expiry, hexpiry⟩

/-! ## The signed text of a request -/

section
variable {Address Payload Ext : Type} {env : RegistryEnv Address Payload}

/-- What the wallet's signature of a request is checked against. -/
def requestPreimage (env : RegistryEnv Address Payload) (request : ApiRequest Ext)
    (auth : PushAuthRequest) : Except PushApiError AuthPreimage := do
  let f := request.fields
  let token ← liftToken (normalizeDeviceToken f.deviceToken)
  let primary ← normalizePrimaryForAuth env.toAuthEnv f.primaryAddress
  let format ← selectAuthFormat auth.authVersion f.watchedGroupIds f.capabilities
  let capabilities ← effectiveCapabilities format (f.watchedGroupIds.getD []) f.capabilities
  let pubkey ← normalizeHexField auth.walletPubkey 32 "wallet_pubkey".toList
  let address ← normalizeWalletAddress env.toAuthEnv auth.walletAddress
  .ok (walletPreimage f token (f.watchedGroupIds.getD []) capabilities format primary pubkey address auth)

/-- The wallet's signature of the request is one over the text. -/
structure SignedOver (env : RegistryEnv Address Payload) (request : ApiRequest Ext)
    (auth : PushAuthRequest) (p : AuthPreimage) (m : Text) : Prop where
  carried : request.auth = some auth
  preimage : requestPreimage env request auth = .ok p
  signable : Signable env.toAuthEnv p m
  verified : verifySchnorrSignature env.toAuthEnv p.walletPubkey m (trim auth.signature) = .ok ()

theorem requestPreimage_ok {request : ApiRequest Ext} {auth : PushAuthRequest}
    {token primary pubkey address : Text} {format : AuthPreimageFormat} {capabilities : List Text}
    (htoken : liftToken (normalizeDeviceToken request.fields.deviceToken) = .ok token)
    (hprimary : normalizePrimaryForAuth env.toAuthEnv request.fields.primaryAddress = .ok primary)
    (hformat : selectAuthFormat auth.authVersion request.fields.watchedGroupIds
      request.fields.capabilities = .ok format)
    (hcapabilities : effectiveCapabilities format (request.fields.watchedGroupIds.getD [])
      request.fields.capabilities = .ok capabilities)
    (hpubkey : normalizeHexField auth.walletPubkey 32 "wallet_pubkey".toList = .ok pubkey)
    (haddress : normalizeWalletAddress env.toAuthEnv auth.walletAddress = .ok address) :
    requestPreimage env request auth = .ok (walletPreimage request.fields token
      (request.fields.watchedGroupIds.getD []) capabilities format primary pubkey address auth) :=
  bind_ok_iff.mpr ⟨token, htoken, bind_ok_iff.mpr ⟨primary, hprimary, bind_ok_iff.mpr
    ⟨format, hformat, bind_ok_iff.mpr ⟨capabilities, hcapabilities, bind_ok_iff.mpr
      ⟨pubkey, hpubkey, bind_ok_iff.mpr ⟨address, haddress, rfl⟩⟩⟩⟩⟩⟩

theorem verifyEither_spec {pubkey preimage signature : Text}
    (h : verifyEither env.toAuthEnv pubkey preimage signature = .ok ()) :
    ∃ m, (m = preimage ∨ m = legacyPreimage preimage) ∧
      verifySchnorrSignature env.toAuthEnv pubkey m signature = .ok () := by
  unfold verifyEither at h
  split at h
  · next hok => exact ⟨preimage, .inl rfl, hok⟩
  · exact ⟨legacyPreimage preimage, .inr rfl, h⟩

theorem verifyWallet_spec {f : PushFields} {token primary : Text} {groupIds capabilities : List Text}
    {format : AuthPreimageFormat} {auth : PushAuthRequest} {wallet : WalletBinding}
    (h : verifyWalletBindingFromAuth env.toAuthEnv f token groupIds capabilities format primary auth =
      .ok wallet) :
    normalizeHexField auth.walletPubkey 32 "wallet_pubkey".toList = .ok wallet.walletPubkey ∧
      normalizeWalletAddress env.toAuthEnv auth.walletAddress = .ok wallet.walletAddress ∧
      ∃ m, Signable env.toAuthEnv (walletPreimage f token groupIds capabilities format primary
          wallet.walletPubkey wallet.walletAddress auth) m ∧
        verifySchnorrSignature env.toAuthEnv wallet.walletPubkey m (trim auth.signature) = .ok () := by
  obtain ⟨pubkey, hpubkey, h⟩ := bind_ok h
  obtain ⟨address, haddress, h⟩ := bind_ok h
  obtain ⟨derived, -, h⟩ := bind_ok h
  split at h
  · cases h
  · obtain ⟨u, hu, h⟩ := bind_ok h
    obtain ⟨m, hm, hverified⟩ := verifyEither_spec hu
    obtain rfl := Except.ok.inj h
    exact ⟨hpubkey, haddress, m, hm, hverified⟩

/-- A request that its wallet's signature lets through is signed over a text of its own, and goes on
with the capabilities that the text names. -/
theorem signed_of_verified {request : ApiRequest Ext} {auth : PushAuthRequest} {nowMs : ℕ}
    {v : VerifiedPushAuth} (hauth : request.auth = some auth)
    (h : verifyPushRequest env.toAuthEnv request.fields auth nowMs = .ok v) :
    ∃ p m, SignedOver env request auth p m ∧ v.capabilities = p.capabilities ∧
      v.walletBinding = some ⟨p.walletPubkey, p.walletAddress⟩ := by
  obtain ⟨_, -, h⟩ := bind_ok h
  obtain ⟨token, htoken, h⟩ := bind_ok h
  obtain ⟨primary, hprimary, h⟩ := bind_ok h
  obtain ⟨format, hformat, h⟩ := bind_ok h
  obtain ⟨capabilities, hcapabilities, h⟩ := bind_ok h
  obtain ⟨wallet, hwallet, h⟩ := bind_ok h
  obtain ⟨_, -, h⟩ := bind_ok h
  obtain ⟨device, -, h⟩ := bind_ok h
  obtain rfl := Except.ok.inj h
  obtain ⟨hpubkey, haddress, m, hm, hverified⟩ := verifyWallet_spec hwallet
  exact ⟨_, m, ⟨hauth, requestPreimage_ok htoken hprimary hformat hcapabilities hpubkey haddress, hm,
    hverified⟩, rfl, rfl⟩

theorem no_capabilities {authVersion : Option ℕ} {format : AuthPreimageFormat}
    (h : selectAuthFormat authVersion none [] = .ok format) : effectiveCapabilities format [] [] = .ok [] := by
  cases format with
  | legacyV1 => rfl
  | v2 => rfl
  | transitionalGroups =>
    unfold selectAuthFormat at h
    split at h <;> simp at h

theorem signed_of_unregister {deviceToken : Text} {auth : PushAuthRequest} {nowMs : ℕ}
    {v : VerifiedPushAuth} {wallet : WalletBinding}
    (h : verifyUnregisterRequest env.toAuthEnv deviceToken auth nowMs = .ok v)
    (hwallet : v.walletBinding = some wallet) :
    ∃ p m, SignedOver env (.unregister deviceToken (some auth) : ApiRequest Ext) auth p m ∧
      wallet = ⟨p.walletPubkey, p.walletAddress⟩ := by
  obtain ⟨_, -, h⟩ := bind_ok h
  obtain ⟨token, htoken, h⟩ := bind_ok h
  obtain ⟨format, hformat, h⟩ := bind_ok h
  obtain ⟨device, -, h⟩ := bind_ok h
  split at h
  · cases h
  · obtain rfl := Except.ok.inj h
    have hverify : verifyWalletBindingFromAuth env.toAuthEnv (unregisterFields deviceToken) token [] []
        format [] auth = .ok wallet := by
      cases hresult : verifyWalletBindingFromAuth env.toAuthEnv (unregisterFields deviceToken) token
          [] [] format [] auth with
      | error e => simp [hresult, Except.toOption] at hwallet
      | ok w => simpa [hresult, Except.toOption] using hwallet
    obtain ⟨hpubkey, haddress, m, hm, hverified⟩ := verifyWallet_spec hverify
    exact ⟨_, m, ⟨rfl, requestPreimage_ok htoken rfl hformat (no_capabilities hformat) hpubkey haddress,
      hm, hverified⟩, rfl⟩

/-- A request that the wallet's signature lets through, and its nonce was issued. -/
theorem signed_of_authenticated {mode : PushAuthMode} {s : NonceStore} {request : ApiRequest Ext}
    {auth : PushAuthRequest} {nowMs : ℕ} {v : VerifiedPushAuth} (hauth : request.auth = some auth)
    (h : (authenticate env mode s request nowMs).2 = .ok v) :
    (∃ expiry, (s.consume (trim auth.nonce) nowMs).2 = .ok expiry) ∧
      ∀ wallet ∈ v.walletBinding, ∃ p m, SignedOver env request auth p m ∧
        wallet = ⟨p.walletPubkey, p.walletAddress⟩ := by
  have hsigned {nowMs : ℕ} (h : verifyPushRequest env.toAuthEnv request.fields auth nowMs = .ok v) :
      ∀ wallet ∈ v.walletBinding, ∃ p m, SignedOver env request auth p m ∧
        wallet = ⟨p.walletPubkey, p.walletAddress⟩ := by
    obtain ⟨p, m, hp, -, hwallet⟩ := signed_of_verified hauth h
    intro wallet hmem
    rw [hwallet] at hmem
    exact ⟨p, m, hp, (Option.some.inj hmem).symm⟩
  cases request with
  | register platform body =>
    simp only [authenticate, authenticatePushRequest, hauth] at h
    obtain ⟨hverified, hnonce⟩ := of_withNonce h
    exact ⟨hnonce, hsigned hverified⟩
  | update body =>
    simp only [authenticate, authenticatePushRequest, hauth] at h
    obtain ⟨hverified, hnonce⟩ := of_withNonce h
    exact ⟨hnonce, hsigned hverified⟩
  | ring deviceToken auth' =>
    simp only [authenticate, authenticatePushRequest, hauth] at h
    obtain ⟨hverified, hnonce⟩ := of_withNonce h
    exact ⟨hnonce, hsigned hverified⟩
  | unregister deviceToken auth' =>
    obtain rfl : auth' = some auth := hauth
    obtain ⟨hverified, hnonce⟩ := of_withNonce h
    exact ⟨hnonce, fun wallet hwallet => signed_of_unregister hverified hwallet⟩

theorem liftToken_ok {r : Except Text Text} {token : Text} (h : liftToken r = .ok token) :
    r = .ok token := by
  cases r with
  | error e => cases h
  | ok t => rw [Except.ok.inj h]

/-- A signed text's fields beside those of the request. -/
structure PreimageOf (env : RegistryEnv Address Payload) (f : PushFields) (auth : PushAuthRequest)
    (p : AuthPreimage) : Prop where
  nonce : p.nonce = trim auth.nonce
  method : p.method = f.method
  path : p.path = f.path
  deviceToken : normalizeDeviceToken f.deviceToken = .ok p.deviceToken
  watchedAddresses : p.watchedAddresses = f.watchedAddresses
  watchedGroupIds : p.watchedGroupIds = f.watchedGroupIds.getD []
  aliases : p.aliases = f.aliases
  primaryAddress : normalizePrimaryForAuth env.toAuthEnv f.primaryAddress = .ok p.primaryAddress
  format : selectAuthFormat auth.authVersion f.watchedGroupIds f.capabilities = .ok p.format
  capabilities : effectiveCapabilities p.format (f.watchedGroupIds.getD []) f.capabilities =
    .ok p.capabilities
  walletPubkey : normalizeHexField auth.walletPubkey 32 "wallet_pubkey".toList = .ok p.walletPubkey
  walletAddress : normalizeWalletAddress env.toAuthEnv auth.walletAddress = .ok p.walletAddress

theorem preimage_spec {request : ApiRequest Ext} {auth : PushAuthRequest} {p : AuthPreimage}
    (h : requestPreimage env request auth = .ok p) : PreimageOf env request.fields auth p := by
  obtain ⟨token, htoken, h⟩ := bind_ok h
  obtain ⟨primary, hprimary, h⟩ := bind_ok h
  obtain ⟨format, hformat, h⟩ := bind_ok h
  obtain ⟨capabilities, hcapabilities, h⟩ := bind_ok h
  obtain ⟨pubkey, hpubkey, h⟩ := bind_ok h
  obtain ⟨address, haddress, h⟩ := bind_ok h
  obtain rfl := Except.ok.inj h
  exact ⟨rfl, rfl, rfl, liftToken_ok htoken, rfl, rfl, rfl, hprimary, hformat, hcapabilities, hpubkey, haddress⟩

theorem text_plain (henv : LawfulAddresses env.toAddressEnv) {t : Text} {a : Address}
    (h : env.parse t = some a) : env.text a ≠ [] ∧ '\n' ∉ env.text a :=
  ⟨(henv.chars (henv.reads h)).1, (henv.plain (henv.reads h)).2.2⟩

/-- The primary address in the signed text is the one that the registry stores, or nothing where it
stores none. -/
theorem primary_spec (henv : LawfulAddresses env.toAddressEnv) {address : Option Text} {t : Text}
    (h : normalizePrimaryForAuth env.toAuthEnv address = .ok t) :
    (normalizePrimaryAddress env.toAddressEnv address = if t = [] then none else some t) ∧
      '\n' ∉ t := by
  have hempty : env.parse [] = none := by
    cases hparse : env.parse [] with
    | none => rfl
    | some a => exact absurd rfl (henv.chars hparse).1
  cases address with
  | none =>
    obtain rfl := Except.ok.inj h
    exact ⟨rfl, by simp⟩
  | some u =>
    unfold normalizePrimaryForAuth at h
    dsimp only at h
    split at h
    · next hblank =>
      obtain rfl := Except.ok.inj h
      rw [normalizePrimaryAddress, Option.bind_some, hblank, hempty]
      exact ⟨rfl, by simp⟩
    · split at h
      · next a ha =>
        obtain rfl := Except.ok.inj h
        obtain ⟨hne, hfeed⟩ := text_plain henv ha
        rw [normalizePrimaryAddress, Option.bind_some, ha, if_neg hne]
        exact ⟨rfl, hfeed⟩
      · cases h

theorem fields_clean (request : ApiRequest Ext) :
    '\n' ∉ request.fields.method ∧ '\n' ∉ request.fields.path := by
  cases request with
  | register platform body =>
    exact ⟨show '\n' ∉ "POST".toList by decide, show '\n' ∉ "/v1/push/register".toList by decide⟩
  | update body =>
    exact ⟨show '\n' ∉ "PUT".toList by decide, show '\n' ∉ "/v1/push/update".toList by decide⟩
  | unregister deviceToken auth =>
    exact ⟨show '\n' ∉ "DELETE".toList by decide, show '\n' ∉ "/v1/push/unregister".toList by decide⟩
  | ring deviceToken auth =>
    exact ⟨show '\n' ∉ "POST".toList by decide, show '\n' ∉ "/v1/push/ring".toList by decide⟩

theorem preimage_clean (henv : LawfulAddresses env.toAddressEnv) {s : NonceStore} (hs : Reached s)
    {request : ApiRequest Ext} {auth : PushAuthRequest} {nowMs : ℕ}
    (hnonce : ∃ expiry, (s.consume (trim auth.nonce) nowMs).2 = .ok expiry) {p : AuthPreimage} (h : PreimageOf env request.fields auth p) : Clean p where
  nonce := by
    obtain ⟨expiry, hexpiry⟩ := hnonce
    exact h.nonce ▸ hs.no_feed (consume_ok hexpiry).1
  method := h.method ▸ (fields_clean request).1
  path := h.path ▸ (fields_clean request).2
  primaryAddress := (primary_spec henv h.primaryAddress).2
  walletPubkey := by
    have hpubkey := h.walletPubkey
    simp only [normalizeHexField] at hpubkey
    split at hpubkey
    · cases hpubkey
    · split at hpubkey
      · cases hpubkey
      · next hhex =>
        rw [← Except.ok.inj hpubkey]
        intro hmem
        have hall := List.all_eq_true.mp (by simpa using hhex) _ hmem
        exact absurd hall (by decide)
  walletAddress := by
    have haddress := h.walletAddress
    unfold normalizeWalletAddress at haddress
    split at haddress
    · cases haddress
    · split at haddress
      · next a ha =>
        rw [← Except.ok.inj haddress]
        exact (text_plain henv ha).2
      · cases haddress

end

/-! ## What is stored -/

section
variable {Address Payload Ext : Type} [DecidableEq Payload] [DecidableEq Ext]
  {env : RegistryEnv Address Payload}

/-- The registration that a call leaves, where it is one that stores. -/
def stored (after : Registry Payload Ext) : RegistryCall Ext → Option (DeviceRegistration Ext)
  | .register _ args | .update args =>
      (normalizeDeviceToken args.token).toOption.bind fun token => after.devices.lookup token
  | .unregisterAuthenticated _ _ _ | .registrationForToken _ _ => none

/-- A request that was authenticated at some time, by a nonce that the server issued, signed over a
text and carried out by a registry after any run. -/
structure Carried (env : RegistryEnv Address Payload) (request : ApiRequest Ext) (p : AuthPreimage)
    (m : Text) (call : RegistryCall Ext) (after : Registry Payload Ext) : Prop where
  signed : ∃ auth, SignedOver env request auth p m
  authenticated : ∃ mode s nowMs v, Reached s ∧ (authenticate env mode s request nowMs).2 = .ok v ∧
    registryCall env v request = .ok call
  performed : ∃ commands now commit retry,
    perform env (run env Registry.new commands) now commit retry call = (after, .ok ())

structure SameStored (a b : DeviceRegistration Ext) : Prop where
  deviceToken : a.deviceToken = b.deviceToken
  watchedAddresses : ∀ t, t ∈ a.watchedAddresses ↔ t ∈ b.watchedAddresses
  watchedGroupIds : ∀ t, t ∈ a.watchedGroupIds ↔ t ∈ b.watchedGroupIds
  capabilities : ∀ t, t ∈ a.capabilities ↔ t ∈ b.capabilities
  aliases : ∀ t, t ∈ a.aliases ↔ t ∈ b.aliases
  primaryAddress : a.primaryAddress = b.primaryAddress

/-- Two requests of one kind, about one device, that store the same. -/
structure SameEffect (request request' : ApiRequest Ext) (a b : Option (DeviceRegistration Ext)) :
    Prop where
  method : request.fields.method = request'.fields.method
  path : request.fields.path = request'.fields.path
  deviceToken : normalizeDeviceToken request.fields.deviceToken =
    normalizeDeviceToken request'.fields.deviceToken
  stored : Option.Rel SameStored a b

/-- What a registration holds of a request. -/
structure Holds (n : Normalized Payload) (registration : DeviceRegistration Ext) : Prop where
  deviceToken : registration.deviceToken = n.token
  watchedAddresses : registration.watchedAddresses = n.addresses.map Prod.fst
  watchedGroupIds : registration.watchedGroupIds = n.groupIds.map Prod.fst
  capabilities : registration.capabilities = n.capabilities
  aliases : registration.aliases = n.aliases
  primaryAddress : registration.primaryAddress = n.primary.map Prod.fst

theorem holds_of_save (henv : LawfulAddresses env.toAddressEnv) {r after : Registry Payload Ext}
    (hr : Filed env r) {platform : Option Text} {args : RegistrationArgs Ext} {now : ℕ}
    {commit : Except Text Unit} (h : save env r platform args now commit = (after, .ok ())) :
    ∃ n registration, NormalizedFrom env args n ∧
      after.devices.lookup n.token = some registration ∧ Holds n registration := by
  rcases save_cases env r platform args now commit with
    ⟨e, -, he⟩ | ⟨n, registration, hprepare, ⟨old, hold, hsame, hout⟩ | ⟨-, global, hout⟩⟩
  · rw [he] at h
    cases h
  · obtain ⟨hn, wallet, device, -, -, rfl⟩ := prepare_spec hprepare
    obtain ⟨rfl, -⟩ := Prod.mk.inj (hout.symm.trans h)
    have hfrom := normalizeArgs_spec hn
    have hstored := hr n.token old hold
    have hequal := unchanged_spec hsame
    refine ⟨n, old, hfrom, hold, hstored.deviceToken, hequal.watchedAddresses, hequal.watchedGroupIds,
      hequal.capabilities, ?_, (hstored.primary_normal henv).symm.trans hequal.primaryAddress⟩
    have haliases : normalizeAliasesVec old.aliases = normalizeAliasesVec n.aliases := hequal.aliases
    rw [← hstored.aliases, haliases, hfrom.aliases, normalizeAliasesVec_idem]
  · obtain ⟨hn, wallet, device, -, -, rfl⟩ := prepare_spec hprepare
    obtain ⟨rfl, -⟩ := Prod.mk.inj (hout.symm.trans h)
    refine ⟨n, _, normalizeArgs_spec hn, AList.lookup_insert _, ⟨rfl, rfl, rfl, rfl, rfl, rfl⟩⟩

/-- The body of a request that registers or updates. -/
def body? : ApiRequest Ext → Option (RegistrationRequest Ext)
  | .register _ body | .update body => some body
  | .unregister _ _ | .ring _ _ => none

omit [DecidableEq Payload] [DecidableEq Ext] in
theorem body_isSome (request : ApiRequest Ext) : (body? request).isSome = true ↔
    request.fields.path = "/v1/push/register".toList ∨ request.fields.path = "/v1/push/update".toList := by
  cases request with
  | register platform body => exact ⟨fun _ => .inl rfl, fun _ => rfl⟩
  | update body => exact ⟨fun _ => .inr rfl, fun _ => rfl⟩
  | unregister deviceToken auth =>
    refine ⟨fun h => absurd h (by simp [body?]), fun h => ?_⟩
    rcases h with h | h
    · exact absurd (show "/v1/push/unregister".toList = "/v1/push/register".toList from h) (by decide)
    · exact absurd (show "/v1/push/unregister".toList = "/v1/push/update".toList from h) (by decide)
  | ring deviceToken auth =>
    refine ⟨fun h => absurd h (by simp [body?]), fun h => ?_⟩
    rcases h with h | h
    · exact absurd (show "/v1/push/ring".toList = "/v1/push/register".toList from h) (by decide)
    · exact absurd (show "/v1/push/ring".toList = "/v1/push/update".toList from h) (by decide)

omit [DecidableEq Payload] [DecidableEq Ext] in
theorem fields_of_body {request : ApiRequest Ext} {body : RegistrationRequest Ext}
    (h : body? request = some body) : request.fields.watchedAddresses = body.watchedAddresses ∧
      request.fields.watchedGroupIds = body.watchedGroupIds ∧ request.fields.aliases = body.aliases ∧
      request.fields.primaryAddress = body.primaryAddress ∧ request.fields.deviceToken = body.deviceToken := by
  cases request with
  | register platform body' =>
    obtain rfl := Option.some.inj h
    exact ⟨rfl, rfl, rfl, rfl, rfl⟩
  | update body' =>
    obtain rfl := Option.some.inj h
    exact ⟨rfl, rfl, rfl, rfl, rfl⟩
  | unregister deviceToken auth => cases h
  | ring deviceToken auth => cases h

omit [DecidableEq Payload] [DecidableEq Ext] in
theorem verified_of_body {request : ApiRequest Ext} {body : RegistrationRequest Ext}
    (hbody : body? request = some body) {auth : PushAuthRequest} (hauth : request.auth = some auth)
    {mode : PushAuthMode} {s : NonceStore} {nowMs : ℕ} {v : VerifiedPushAuth}
    (h : (authenticate env mode s request nowMs).2 = .ok v) :
    verifyPushRequest env.toAuthEnv request.fields auth nowMs = .ok v := by
  cases request with
  | register platform body' =>
    simp only [authenticate, authenticatePushRequest, hauth] at h
    exact (of_withNonce h).1
  | update body' =>
    simp only [authenticate, authenticatePushRequest, hauth] at h
    exact (of_withNonce h).1
  | unregister deviceToken auth => cases hbody
  | ring deviceToken auth => cases hbody

omit [DecidableEq Payload] [DecidableEq Ext] in
theorem capabilities_of_body {request : ApiRequest Ext} {body : RegistrationRequest Ext}
    (hbody : body? request = some body) {auth : PushAuthRequest} {p : AuthPreimage} {m : Text}
    (hsigned : SignedOver env request auth p m) {mode : PushAuthMode} {s : NonceStore} {nowMs : ℕ}
    {v : VerifiedPushAuth} (h : (authenticate env mode s request nowMs).2 = .ok v) :
    v.capabilities = p.capabilities := by
  have hverified := verified_of_body hbody hsigned.carried h
  obtain ⟨p', m', hsigned', hcapabilities, -⟩ := signed_of_verified hsigned.carried hverified
  obtain rfl : p = p' := Except.ok.inj (hsigned.preimage.symm.trans hsigned'.preimage)
  exact hcapabilities

/-- A registration or an update that is carried out stores what its fields are normalised to. -/
theorem carried_stores (henv : LawfulAddresses env.toAddressEnv) {request : ApiRequest Ext}
    {p : AuthPreimage} {m : Text} {call : RegistryCall Ext} {after : Registry Payload Ext}
    (h : Carried env request p m call after) {body : RegistrationRequest Ext}
    (hbody : body? request = some body) :
    ∃ v webPush n registration, v.capabilities = p.capabilities ∧
      NormalizedFrom env (body.args v webPush) n ∧ stored after call = some registration ∧
      Holds n registration := by
  obtain ⟨auth, hsigned⟩ := h.signed
  obtain ⟨mode, s, nowMs, v, -, hauth, hcall⟩ := h.authenticated
  obtain ⟨commands, now, commit, retry, hperform⟩ := h.performed
  have hcapabilities := capabilities_of_body hbody hsigned hauth
  have hfiled := filed_run henv (filed_new env) commands
  have hlookup {args : RegistrationArgs Ext} {n : Normalized Payload}
      {registration : DeviceRegistration Ext} (hfrom : NormalizedFrom env args n)
      (h : after.devices.lookup n.token = some registration) :
      ((normalizeDeviceToken args.token).toOption.bind fun token => after.devices.lookup token) =
        some registration := by
    rw [hfrom.token]
    exact h
  cases request with
  | register platform body' =>
    obtain rfl := Option.some.inj hbody
    obtain ⟨webPush, -, hcall⟩ := bind_ok hcall
    obtain rfl := Except.ok.inj hcall
    obtain ⟨n, registration, hfrom, hstored, hholds⟩ := holds_of_save henv hfiled hperform
    exact ⟨v, webPush, n, registration, hcapabilities, hfrom, hlookup hfrom hstored, hholds⟩
  | update body' =>
    obtain rfl := Option.some.inj hbody
    obtain ⟨webPush, -, hcall⟩ := bind_ok hcall
    obtain rfl := Except.ok.inj hcall
    obtain ⟨n, registration, hfrom, hstored, hholds⟩ := holds_of_save henv hfiled hperform
    exact ⟨v, webPush, n, registration, hcapabilities, hfrom, hlookup hfrom hstored, hholds⟩
  | unregister deviceToken auth => cases hbody
  | ring deviceToken auth => cases hbody

omit [DecidableEq Payload] [DecidableEq Ext] in
theorem stores_nothing {request : ApiRequest Ext} (hbody : body? request = none)
    {v : VerifiedPushAuth} {call : RegistryCall Ext} (hcall : registryCall env v request = .ok call)
    (after : Registry Payload Ext) : stored after call = none ∧ request.fields.aliases = [] := by
  cases request with
  | register platform body => cases hbody
  | update body => cases hbody
  | unregister deviceToken auth =>
    obtain ⟨token, -, hcall⟩ := bind_ok hcall
    obtain rfl := Except.ok.inj hcall
    exact ⟨rfl, rfl⟩
  | ring deviceToken auth =>
    cases hwallet : v.walletBinding with
    | none =>
      simp only [registryCall, hwallet] at hcall
      cases hcall
    | some wallet =>
      simp only [registryCall, hwallet] at hcall
      obtain ⟨token, -, hcall⟩ := bind_ok hcall
      obtain rfl := Except.ok.inj hcall
      exact ⟨rfl, rfl⟩

omit [DecidableEq Payload] [DecidableEq Ext] in
/-- What is stored of the addresses is told by the text that is hashed. -/
theorem addresses_told (henv : LawfulAddresses env.toAddressEnv) {l l' : List Text}
    {out out' : List (Text × Payload)} (h : normalizeAddresses env.toAddressEnv l = .ok out)
    (h' : normalizeAddresses env.toAddressEnv l' = .ok out')
    (hjoin : joinLines (canonicalizeWatchedAddresses l) = joinLines (canonicalizeWatchedAddresses l')) :
    ∀ t, t ∈ out.map Prod.fst ↔ t ∈ out'.map Prod.fst := by
  have hplain {l : List Text} {out : List (Text × Payload)}
      (h : normalizeAddresses env.toAddressEnv l = .ok out) :
      (∀ t ∈ canonicalizeWatchedAddresses l, t ≠ [] ∧ '\n' ∉ t) ∧
        ∀ t, t ∈ canonicalizeWatchedAddresses l ↔ t ∈ l := by
    obtain ⟨-, -, hread, -⟩ := normalizeAddresses_spec henv h
    have hmem : ∀ t, t ∈ canonicalizeWatchedAddresses l ↔ t ∈ l := by
      intro t
      rw [canonicalizeWatchedAddresses, mem_sortedSet, mem_kept]
      constructor
      · rintro ⟨v, hv, -, rfl⟩
        obtain ⟨a, ha⟩ := hread v hv
        rwa [(henv.plain ha).1, (henv.plain ha).2.1]
      · intro ht
        obtain ⟨a, ha⟩ := hread t ht
        have htrim := (henv.plain ha).1
        exact ⟨t, ht, htrim.symm ▸ (henv.chars ha).1, by rw [htrim, (henv.plain ha).2.1]⟩
    refine ⟨fun t ht => ?_, hmem⟩
    obtain ⟨a, ha⟩ := hread t ((hmem t).mp ht)
    exact ⟨(henv.chars ha).1, (henv.plain ha).2.2⟩
  obtain ⟨hlines, hmem⟩ := hplain h
  obtain ⟨hlines', hmem'⟩ := hplain h'
  have hlists := joinLines_inj_of_kept hlines hlines' hjoin
  have hsame : ∀ t, t ∈ l ↔ t ∈ l' := fun t => by rw [← hmem t, ← hmem' t, hlists]
  intro t
  rw [(normalizeAddresses_spec henv h).2.2.2 t, (normalizeAddresses_spec henv h').2.2.2 t]
  simp only [hsame]

omit [DecidableEq Payload] [DecidableEq Ext] in
theorem groupIds_told {l l' : List Text} {out out' : List (Text × Bytes)}
    (h : normalizeGroupIds env.toAddressEnv l = .ok out)
    (h' : normalizeGroupIds env.toAddressEnv l' = .ok out')
    (hjoin : joinLines (canonicalizeWatchedGroupIds l) = joinLines (canonicalizeWatchedGroupIds l')) :
    ∀ t, t ∈ out.map Prod.fst ↔ t ∈ out'.map Prod.fst := by
  have hplain {l : List Text} {out : List (Text × Bytes)}
      (h : normalizeGroupIds env.toAddressEnv l = .ok out) :
      (∀ t ∈ canonicalizeWatchedGroupIds l, t ≠ [] ∧ '\n' ∉ t) ∧
        ∀ t, t ∈ canonicalizeWatchedGroupIds l ↔ t ∈ out.map Prod.fst := by
    obtain ⟨-, -, hread, hkeys⟩ := normalizeGroupIds_spec h
    have hmem : ∀ t, t ∈ canonicalizeWatchedGroupIds l ↔ t ∈ out.map Prod.fst := by
      intro t
      rw [canonicalizeWatchedGroupIds, mem_sortedSet, mem_kept, hkeys]
      constructor
      · rintro ⟨v, hv, -, rfl⟩
        exact ⟨v, hv, rfl⟩
      · rintro ⟨v, hv, rfl⟩
        obtain ⟨b, hb⟩ := hread v hv
        refine ⟨v, hv, fun hblank => hb.ne_nil ?_, rfl⟩
        rw [hblank]
        rfl
    refine ⟨fun t ht => ?_, hmem⟩
    obtain ⟨v, hv, rfl⟩ := (hkeys t).mp ((hmem t).mp ht)
    obtain ⟨b, hb⟩ := hread v hv
    exact ⟨hb.ne_nil, hb.no_feed⟩
  obtain ⟨hlines, hmem⟩ := hplain h
  obtain ⟨hlines', hmem'⟩ := hplain h'
  intro t
  rw [← hmem t, ← hmem' t, joinLines_inj_of_kept hlines hlines' hjoin]

theorem capabilities_told {l l' out out' : List Text} (h : normalizeCapabilities l = .ok out)
    (h' : normalizeCapabilities l' = .ok out')
    (hjoin : joinLines (canonicalizeCapabilitiesForHash l) =
      joinLines (canonicalizeCapabilitiesForHash l')) : out = out' := by
  have hplain {l out : List Text} (h : normalizeCapabilities l = .ok out) :
      ∀ t ∈ canonicalizeCapabilitiesForHash l, t ≠ [] ∧ '\n' ∉ t := by
    obtain ⟨rfl, hvalid⟩ := normalizeCapabilities_spec h
    intro t ht
    obtain ⟨v, -, hne, rfl⟩ := mem_kept.mp (mem_sortedSet.mp ht)
    refine ⟨toAsciiLowercase_ne_nil hne, fun hmem => ?_⟩
    have hchars := List.all_eq_true.mp (Bool.and_eq_true_iff.mp (hvalid _ ht)).2 _ hmem
    exact absurd hchars (by decide)
  rw [(normalizeCapabilities_spec h).1, (normalizeCapabilities_spec h').1,
    joinLines_inj_of_kept (hplain h) (hplain h') hjoin]

omit [DecidableEq Payload] [DecidableEq Ext] in
theorem no_groups_of_legacy {authVersion : Option ℕ} {groups : Option (List Text)}
    {capabilities : List Text} (h : selectAuthFormat authVersion groups capabilities = .ok .legacyV1) :
    groups = none := by
  cases groups with
  | none => rfl
  | some groups =>
    have hformat {x : Except PushApiError AuthPreimageFormat} (hx : (if capabilities = [] then
        .ok .transitionalGroups else x) = .ok .legacyV1) : x = .ok .legacyV1 := by
      split at hx
      · cases hx
      · exact hx
    unfold selectAuthFormat at h
    split at h
    · cases hformat h
    · cases hformat h
    · cases h
    · cases h

/-- How many line feeds each alias holds, in the order of the signed text. -/
def lineFeeds (aliases : List Text) : List ℕ := (canonicalizeAliases aliases).map (List.count '\n')

omit [DecidableEq Payload] [DecidableEq Ext] in
/-- What two requests that are signed alike store, but for the aliases. -/
theorem same_of_agree (henv : LawfulAddresses env.toAddressEnv) {request request' : ApiRequest Ext}
    {auth auth' : PushAuthRequest} {p p' : AuthPreimage} (hp : PreimageOf env request.fields auth p)
    (hp' : PreimageOf env request'.fields auth' p') (hagree : Agree p p')
    {body body' : RegistrationRequest Ext} (hbody : body? request = some body)
    (hbody' : body? request' = some body') {v v' : VerifiedPushAuth}
    {webPush webPush' : Option WebPushSubscription} {n n' : Normalized Payload}
    (hv : v.capabilities = p.capabilities) (hv' : v'.capabilities = p'.capabilities)
    (hn : NormalizedFrom env (body.args v webPush) n)
    (hn' : NormalizedFrom env (body'.args v' webPush') n') :
    n.token = n'.token ∧ (∀ t, t ∈ n.addresses.map Prod.fst ↔ t ∈ n'.addresses.map Prod.fst) ∧
      (∀ t, t ∈ n.groupIds.map Prod.fst ↔ t ∈ n'.groupIds.map Prod.fst) ∧
      n.capabilities = n'.capabilities ∧ n.primary.map Prod.fst = n'.primary.map Prod.fst := by
  obtain ⟨haddresses, hgroupIds, -, hprimary, htoken⟩ := fields_of_body hbody
  obtain ⟨haddresses', hgroupIds', -, hprimary', htoken'⟩ := fields_of_body hbody'
  refine ⟨?_, ?_, ?_, ?_, ?_⟩
  · have hpt := hp.deviceToken
    have hpt' := hp'.deviceToken
    rw [htoken, show normalizeDeviceToken body.deviceToken = .ok n.token from hn.token] at hpt
    rw [htoken', show normalizeDeviceToken body'.deviceToken = .ok n'.token from hn'.token] at hpt'
    rw [Except.ok.inj hpt, Except.ok.inj hpt', hagree.deviceToken]
  · have hjoin := hagree.watchedAddresses
    rw [hp.watchedAddresses, hp'.watchedAddresses, haddresses, haddresses'] at hjoin
    exact addresses_told henv hn.addresses hn'.addresses hjoin
  · by_cases hlegacy : p.format = .legacyV1
    · have hnone := no_groups_of_legacy (hlegacy ▸ hp.format)
      have hnone' := no_groups_of_legacy ((hagree.format.symm.trans hlegacy) ▸ hp'.format)
      have hgroups := hn.groupIds
      have hgroups' := hn'.groupIds
      rw [hgroupIds] at hnone
      rw [hgroupIds'] at hnone'
      simp only [RegistrationRequest.args, hnone, hnone', Option.getD_none] at hgroups hgroups'
      rw [Except.ok.inj (hgroups.symm.trans hgroups')]
      exact fun t => Iff.rfl
    · have hjoin := hagree.watchedGroupIds hlegacy
      rw [hp.watchedGroupIds, hp'.watchedGroupIds, hgroupIds, hgroupIds'] at hjoin
      exact groupIds_told hn.groupIds hn'.groupIds hjoin
  · have hcapabilities : normalizeCapabilities p.capabilities = .ok n.capabilities :=
      hv ▸ hn.capabilities
    have hcapabilities' : normalizeCapabilities p'.capabilities = .ok n'.capabilities :=
      hv' ▸ hn'.capabilities
    by_cases hv2 : p.format = .v2
    · exact capabilities_told hcapabilities hcapabilities' (hagree.capabilities hv2)
    · have hsame : p.capabilities = p'.capabilities := by
        have heffective := hp.capabilities
        have heffective' := hp'.capabilities
        rw [← hagree.format] at heffective'
        cases hformat : p.format with
        | legacyV1 =>
          rw [hformat] at heffective heffective'
          exact Except.ok.inj (heffective.symm.trans heffective')
        | transitionalGroups =>
          rw [hformat] at heffective heffective'
          exact Except.ok.inj (heffective.symm.trans heffective')
        | v2 => exact absurd hformat hv2
      rw [hsame] at hcapabilities
      exact Except.ok.inj (hcapabilities.symm.trans hcapabilities')
  · have hsigned := (primary_spec henv hp.primaryAddress).1
    have hsigned' := (primary_spec henv hp'.primaryAddress).1
    rw [hprimary, ← hagree.primaryAddress.symm] at hsigned
    rw [hprimary'] at hsigned'
    rw [(normalizePrimary_spec henv hn.primary).1, (normalizePrimary_spec henv hn'.primary).1]
    exact hsigned.trans hsigned'.symm

/-- Two requests that are signed alike are of one kind, about one device and store the same exactly
when the aliases of the two hold line feeds in the same places. -/
theorem signature_covers_iff (henv : LawfulAddresses env.toAddressEnv)
    (hdigest : Function.Injective env.digest) {request request' : ApiRequest Ext}
    {p p' : AuthPreimage} {m m' : Text} {call call' : RegistryCall Ext}
    {after after' : Registry Payload Ext} (h : Carried env request p m call after)
    (h' : Carried env request' p' m' call' after') (hsame : SameText env.toAuthEnv p p' m m') :
    SameEffect request request' (stored after call) (stored after' call') ↔
      lineFeeds request.fields.aliases = lineFeeds request'.fields.aliases := by
  obtain ⟨auth, hsigned⟩ := h.signed
  obtain ⟨auth', hsigned'⟩ := h'.signed
  have hp := preimage_spec hsigned.preimage
  have hp' := preimage_spec hsigned'.preimage
  obtain ⟨mode, s, nowMs, v, hs, hauth, hcall⟩ := h.authenticated
  obtain ⟨mode', s', nowMs', v', hs', hauth', hcall'⟩ := h'.authenticated
  have hagree := agree_of_preimage hdigest
    (preimage_clean henv hs (signed_of_authenticated hsigned.carried hauth).1 hp)
    (preimage_clean henv hs' (signed_of_authenticated hsigned'.carried hauth').1 hp')
    (preimage_of_sameText hsigned.signable hsigned'.signable hsame)
  have hmethod : request.fields.method = request'.fields.method := by
    rw [← hp.method, hagree.method, hp'.method]
  have hpath : request.fields.path = request'.fields.path := by
    rw [← hp.path, hagree.path, hp'.path]
  have htoken : normalizeDeviceToken request.fields.deviceToken =
      normalizeDeviceToken request'.fields.deviceToken := by
    rw [hp.deviceToken, hp'.deviceToken, hagree.deviceToken]
  have hkind : (body? request).isSome = (body? request').isSome := by
    rw [Bool.eq_iff_iff, body_isSome, body_isSome, hpath]
  cases hbody : body? request with
  | none =>
    have hbody' : body? request' = none := by
      rw [hbody] at hkind
      simpa using hkind.symm
    obtain ⟨hnone, haliases⟩ := stores_nothing hbody hcall after
    obtain ⟨hnone', haliases'⟩ := stores_nothing hbody' hcall' after'
    rw [hnone, hnone', haliases, haliases']
    exact iff_of_true ⟨hmethod, hpath, htoken, .none⟩ rfl
  | some body =>
    obtain ⟨body', hbody'⟩ : ∃ body', body? request' = some body' := by
      rw [hbody] at hkind
      exact Option.isSome_iff_exists.mp hkind.symm
    obtain ⟨w, webPush, n, registration, hw, hn, hstored, hholds⟩ := carried_stores henv h hbody
    obtain ⟨w', webPush', n', registration', hw', hn', hstored', hholds'⟩ :=
      carried_stores henv h' hbody'
    obtain ⟨hdevice, haddresses, hgroupIds, hcapabilities, hprimary⟩ :=
      same_of_agree henv hp hp' hagree hbody hbody' hw hw' hn hn'
    have haliases : registration.aliases = canonicalizeAliases request.fields.aliases := by
      rw [hholds.aliases, hn.aliases, (fields_of_body hbody).2.2.1]
      rfl
    have haliases' : registration'.aliases = canonicalizeAliases request'.fields.aliases := by
      rw [hholds'.aliases, hn'.aliases, (fields_of_body hbody').2.2.1]
      rfl
    rw [hstored, hstored']
    constructor
    · intro heffect
      obtain ⟨hsame⟩ := heffect.stored
      have hlists : canonicalizeAliases request.fields.aliases =
          canonicalizeAliases request'.fields.aliases := by
        have hmem := sortedSet_congr hsame.aliases
        rwa [haliases, haliases', canonicalizeAliases, canonicalizeAliases, sortedSet_idem,
          sortedSet_idem] at hmem
      rw [lineFeeds, lineFeeds, hlists]
    · intro hfeeds
      have hjoin := hagree.aliases
      rw [hp.aliases, hp'.aliases] at hjoin
      have hlists := joinLines_inj_of_count hfeeds hjoin
      refine ⟨hmethod, hpath, htoken, .some ⟨?_, ?_, ?_, ?_, ?_, ?_⟩⟩
      · rw [hholds.deviceToken, hholds'.deviceToken, hdevice]
      · rwa [hholds.watchedAddresses, hholds'.watchedAddresses]
      · rwa [hholds.watchedGroupIds, hholds'.watchedGroupIds]
      · rw [hholds.capabilities, hholds'.capabilities, hcapabilities]
        exact fun t => Iff.rfl
      · rw [haliases, haliases', hlists]
        exact fun t => Iff.rfl
      · rw [hholds.primaryAddress, hholds'.primaryAddress, hprimary]

end

/-! ## A sample -/

/-- Addresses that are their own payloads, and signatures that all hold. -/
def plainEnv : RegistryEnv Text Text where
  parse t := if t ≠ [] ∧ t.all isAddressChar = true then some t else none
  text := id
  payload := some
  parseError _ := []
  payloadError _ := []
  hexError _ := []
  digest := id
  isXOnlyPubkey _ := true
  isSchnorrSignature _ := true
  verifySchnorr _ _ _ := true
  deriveAddress _ := "kaspa:q".toList
  decodeBase64 _ := none
  encodeBase64 _ := []
  verifyP256 _ _ _ := false
  allowedApnsTopics := []
  lastSeenRefreshJitterSecs _ _ := 0
  encodeBase64Url _ := []

theorem plainEnv_lawful : LawfulAddresses plainEnv.toAddressEnv where
  chars {t a} h := by
    simp only [plainEnv] at h
    split at h
    · next ht => exact ht
    · cases h
  reads {t a} h := by
    simp only [plainEnv] at h ⊢
    split at h
    · next ht =>
      obtain rfl := Option.some.inj h
      exact if_pos ht
    · cases h

def sampleAuth : PushAuthRequest where
  authVersion := none
  walletPubkey := List.replicate 64 'a'
  walletAddress := "kaspa:q".toList
  nonce := "07".toList
  timestampMs := 0
  expiresAtMs := 60000
  signature := List.replicate 128 'b'
  deviceAuth := none

/-- A registration of one device, of one address and some aliases. -/
def sampleRequest (aliases : List Text) : ApiRequest Unit :=
  .register "ios".toList
    { deviceToken := List.replicate 64 'c'
      watchedAddresses := ["kaspa:q".toList]
      watchedGroupIds := none
      capabilities := []
      primaryAddress := none
      aliases := aliases
      extension := ()
      watchOnlyAddresses := []
      apnsEnvironment := none
      voipToken := none
      webPush := none
      apnsTopic := none
      androidChannelId := none
      auth := some sampleAuth }

def sampleStore : NonceStore := NonceStore.new.issue [7] 0

def samplePreimage (aliases : List Text) : AuthPreimage :=
  walletPreimage (sampleRequest aliases).fields (List.replicate 64 'c') [] [] .legacyV1 []
    (List.replicate 64 'a') "kaspa:q".toList sampleAuth

def sampleCall (aliases : List Text) : RegistryCall Unit :=
  .register "ios".toList
    { token := List.replicate 64 'c'
      watchedAddresses := ["kaspa:q".toList]
      watchedGroupIds := []
      capabilities := []
      primaryAddress := none
      aliases := aliases
      extension := ()
      watchOnlyAddresses := []
      apnsEnvironment := none
      voipToken := none
      webPush := none
      apnsTopic := none
      androidChannelId := none
      walletBinding := some ⟨List.replicate 64 'a', "kaspa:q".toList⟩
      deviceKeyBinding := none }

def sampleAfter (aliases : List Text) : Registry Text Unit :=
  (perform plainEnv Registry.new 0 (.ok ()) (.ok ()) (sampleCall aliases)).1

theorem ok_of_toOption {ε α : Type*} {x : Except ε α} {a : α} (h : x.toOption = some a) :
    x = .ok a := by
  cases x with
  | error e => cases h
  | ok b => rw [Option.some.inj h]

/-- What the sample has to pass. -/
def samplePasses (aliases : List Text) : Bool :=
  ((authenticate plainEnv .strict sampleStore (sampleRequest aliases) 1).2.toOption.map fun v =>
      (v.walletBinding, v.deviceBinding, v.capabilities)) ==
    some (some ⟨List.replicate 64 'a', "kaspa:q".toList⟩, none, []) &&
  (verifySchnorrSignature plainEnv.toAuthEnv (List.replicate 64 'a')
    (buildAuthPreimage plainEnv.toAuthEnv (samplePreimage aliases))
    (trim sampleAuth.signature)).toOption == some () &&
  (perform plainEnv Registry.new 0 (.ok ()) (.ok ()) (sampleCall aliases)).2.toOption == some ()

theorem sample_carried {aliases : List Text} (h : samplePasses aliases = true) :
    Carried plainEnv (sampleRequest aliases) (samplePreimage aliases)
      (buildAuthPreimage plainEnv.toAuthEnv (samplePreimage aliases)) (sampleCall aliases)
      (sampleAfter aliases) := by
  simp only [samplePasses, Bool.and_eq_true, beq_iff_eq] at h
  obtain ⟨⟨hauth, hsignature⟩, hperform⟩ := h
  obtain ⟨⟨wallet, device, capabilities⟩, hv, hfields⟩ := Option.map_eq_some_iff.mp hauth
  obtain ⟨rfl, rfl, rfl⟩ : wallet = _ ∧ device = none ∧ capabilities = [] := by simpa using hfields
  have htoken : liftToken (normalizeDeviceToken (List.replicate 64 'c')) =
      .ok (List.replicate 64 'c') := ok_of_toOption (by decide +kernel)
  have hpubkey : normalizeHexField (List.replicate 64 'a') 32 "wallet_pubkey".toList =
      .ok (List.replicate 64 'a') := ok_of_toOption (by decide +kernel)
  have haddress : normalizeWalletAddress plainEnv.toAuthEnv "kaspa:q".toList = .ok "kaspa:q".toList :=
    ok_of_toOption (by decide +kernel)
  exact {
    signed := ⟨sampleAuth, rfl, requestPreimage_ok htoken rfl rfl rfl hpubkey haddress, .inl rfl,
      ok_of_toOption hsignature⟩
    authenticated := ⟨.strict, sampleStore, 1, _, .issue .new [7] 0, ok_of_toOption hv, rfl⟩
    performed := ⟨[], 0, .ok (), .ok (), Prod.ext rfl (ok_of_toOption hperform)⟩ }

/-- Trimmed and in another order the aliases are the same. -/
theorem sample_trimmed : SameEffect (sampleRequest ["a".toList, "b".toList])
    (sampleRequest [" b".toList, "a ".toList])
    (stored (sampleAfter ["a".toList, "b".toList]) (sampleCall ["a".toList, "b".toList]))
    (stored (sampleAfter [" b".toList, "a ".toList]) (sampleCall [" b".toList, "a ".toList])) :=
  (signature_covers_iff plainEnv_lawful Function.injective_id (sample_carried (by decide +kernel))
    (sample_carried (by decide +kernel)) (.inl (by decide +kernel))).mpr (by decide +kernel)

/-- One alias of two lines is signed like two aliases. -/
theorem joined_aliases : ¬∀ (env : RegistryEnv Text Text), LawfulAddresses env.toAddressEnv →
    Function.Injective env.digest → ∀ (request request' : ApiRequest Unit) (p p' : AuthPreimage)
      (m m' : Text) (call call' : RegistryCall Unit) (after after' : Registry Text Unit),
      Carried env request p m call after → Carried env request' p' m' call' after' →
        SameText env.toAuthEnv p p' m m' →
          SameEffect request request' (stored after call) (stored after' call') := by
  intro h
  have heffect := h plainEnv plainEnv_lawful Function.injective_id _ _ _ _ _ _ _ _ _ _
    (@sample_carried ["a".toList, "b".toList] (by decide +kernel))
    (@sample_carried ["a\nb".toList] (by decide +kernel)) (.inl (by decide +kernel))
  obtain ⟨hstored⟩ := heffect.stored
  exact absurd ((hstored.aliases "a".toList).mp (by decide +kernel)) (by decide +kernel)

end KaChatIndexer.PushCoverage

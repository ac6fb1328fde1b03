import KaChatIndexer.PushCoverage

/-!
# Who may change a registration

The service issues nonces and lets requests through, their calls reach the registry in any order, and
what comes of deliveries reaches it in between.
-/
namespace KaChatIndexer.PushOwnership
open ByteStrings KaText PushFields PushAuth PushRegistry PushApi PushSigned PushStored PushCoverage
  Fallible

/-! ## The service -/

/-- A request that was let through, with what its handler asks the registry. -/
structure Admitted (Ext : Type) where
  request : ApiRequest Ext
  call : RegistryCall Ext

/-- The nonces and the registry, the calls under way, and every nonce issued so far with its expiry
and every one that let a request through with the time of the request. -/
structure Service (Payload Ext : Type) where
  nonces : NonceStore
  registry : Registry Payload Ext
  pending : List (Admitted Ext)
  issued : List (Text × ℕ)
  passed : List (Text × ℕ)

def Service.new {Payload Ext : Type} : Service Payload Ext := ⟨NonceStore.new, Registry.new, [], [], []⟩

/-- `dead` is the dispatcher's removal of a token, `learned` what a delivery tells of a token's APNs
environment. -/
inductive Event (Ext : Type)
  | challenge (random : Bytes) (nowMs : ℕ)
  | request (mode : PushAuthMode) (request : ApiRequest Ext) (nowMs : ℕ)
  | perform (index now : ℕ) (commit retry : Except Text Unit)
  | dead (token : Text) (commit : Except Text Unit)
  | learned (token environment : Text) (commit : Except Text Unit)

section
variable {Address Payload Ext : Type}

/-- A request that passes uses up its nonce, if it is signed. -/
def pass (s : Service Payload Ext) (request : ApiRequest Ext) (nowMs : ℕ) : List (Text × ℕ) :=
  (request.auth.map fun auth => (trim auth.nonce, nowMs)).toList ++ s.passed

def letIn (env : RegistryEnv Address Payload) (s : Service Payload Ext) (mode : PushAuthMode)
    (request : ApiRequest Ext) (nowMs : ℕ) : Service Payload Ext :=
  let authenticated := authenticate env mode s.nonces request nowMs
  match authenticated.2 with
  | .error _ => { s with nonces := authenticated.1 }
  | .ok verified =>
    let s := { s with nonces := authenticated.1, passed := pass s request nowMs }
    match registryCall env verified request with
    | .error _ => s
    | .ok call => { s with pending := s.pending ++ [⟨request, call⟩] }

variable [DecidableEq Payload] [DecidableEq Ext]

def step (env : RegistryEnv Address Payload) (s : Service Payload Ext) : Event Ext → Service Payload Ext
  | .challenge random nowMs =>
      { s with
        nonces := s.nonces.issue random nowMs
        issued := (hexEncode random, saturatingAdd nowMs nonceTtlMs) :: s.issued }
  | .request mode request nowMs => letIn env s mode request nowMs
  | .perform index now commit retry =>
      match s.pending[index]? with
      | none => s
      | some admitted =>
        { s with
          registry := (PushApi.perform env s.registry now commit retry admitted.call).1
          pending := s.pending.eraseIdx index }
  | .dead token commit =>
      { s with registry := (unregisterInner env s.registry token none false commit).1 }
  | .learned token environment commit =>
      { s with registry := (setApnsEnvironment s.registry token environment commit).1 }

def run (env : RegistryEnv Address Payload) (events : List (Event Ext)) : Service Payload Ext :=
  events.foldl (step env) Service.new

theorem run_append_singleton (env : RegistryEnv Address Payload) (events : List (Event Ext))
    (e : Event Ext) : run env (events ++ [e]) = step env (run env events) e := by
  rw [run, List.foldl_append]
  rfl

/-- The nonces that the events draw. -/
def drawn (events : List (Event Ext)) : List Bytes :=
  events.filterMap fun
    | .challenge random _ => some random
    | _ => none

omit [DecidableEq Payload] [DecidableEq Ext] in
theorem drawn_append (events : List (Event Ext)) (e : Event Ext) :
    drawn (events ++ [e]) = drawn events ++ drawn [e] :=
  List.filterMap_append

end

/-! ## Nonces -/

/-- The nonces in the store are issued and unused, and those used were live when they were. -/
structure Accounted {Payload Ext : Type} (s : Service Payload Ext) : Prop where
  live : ∀ nonce expiry, s.nonces.expiriesByNonce.lookup nonce = some expiry →
    (nonce, expiry) ∈ s.issued ∧ nonce ∉ s.passed.map Prod.fst
  timely : ∀ x ∈ s.passed, ∃ expiry, (x.1, expiry) ∈ s.issued ∧ x.2 ≤ expiry
  once : (s.passed.map Prod.fst).Nodup

section
variable {Address Payload Ext : Type} {env : RegistryEnv Address Payload}

theorem authenticate_signed (env : RegistryEnv Address Payload) (mode : PushAuthMode) (s : NonceStore)
    {request : ApiRequest Ext} {auth : PushAuthRequest} (hauth : request.auth = some auth) (nowMs : ℕ) :
    ∃ verified, authenticate env mode s request nowMs = withNonce s auth nowMs verified := by
  cases request with
  | register platform body =>
    exact ⟨verifyPushRequest env.toAuthEnv (ApiRequest.register platform body).fields auth nowMs,
      by simp only [authenticate, authenticatePushRequest, hauth]⟩
  | update body =>
    exact ⟨verifyPushRequest env.toAuthEnv (ApiRequest.update body).fields auth nowMs,
      by simp only [authenticate, authenticatePushRequest, hauth]⟩
  | unregister deviceToken auth' =>
    obtain rfl : auth' = some auth := hauth
    exact ⟨_, rfl⟩
  | ring deviceToken auth' =>
    exact ⟨verifyPushRequest env.toAuthEnv (ApiRequest.ring deviceToken auth' : ApiRequest Ext).fields
      auth nowMs, by simp only [authenticate, authenticatePushRequest, hauth]⟩

/-- An unsigned request uses no nonce and goes on without a wallet or a device key. -/
theorem authenticate_unsigned (env : RegistryEnv Address Payload) (mode : PushAuthMode) (s : NonceStore)
    {request : ApiRequest Ext} (hauth : request.auth = none) (nowMs : ℕ) :
    (authenticate env mode s request nowMs).1 = s ∧
      ∀ v, (authenticate env mode s request nowMs).2 = .ok v →
        v.walletBinding = none ∧ v.deviceBinding = none := by
  have hpush {f : PushFields} {v : VerifiedPushAuth}
      (h : (authenticatePushRequest env.toAuthEnv mode s f none nowMs).2 = .ok v) :
      v.walletBinding = none ∧ v.deviceBinding = none := by
    simp only [authenticatePushRequest] at h
    split at h
    · cases h
    · cases mode with
      | strict => cases h
      | legacy =>
        obtain rfl := Except.ok.inj h
        exact ⟨rfl, rfl⟩
      | mixed =>
        simp only [unsignedPushAuth] at h
        split at h
        · cases h
        · obtain rfl := Except.ok.inj h
          exact ⟨rfl, rfl⟩
  cases request with
  | register platform body =>
    simp only [authenticate, hauth]
    exact ⟨rfl, fun v hv => hpush hv⟩
  | update body =>
    simp only [authenticate, hauth]
    exact ⟨rfl, fun v hv => hpush hv⟩
  | unregister deviceToken auth' =>
    obtain rfl : auth' = none := hauth
    refine ⟨rfl, fun v hv => ?_⟩
    cases mode with
    | strict => cases hv
    | legacy =>
      obtain rfl := Except.ok.inj hv
      exact ⟨rfl, rfl⟩
    | mixed =>
      obtain rfl := Except.ok.inj hv
      exact ⟨rfl, rfl⟩
  | ring deviceToken auth' => cases hauth

theorem accounted_challenge {s : Service Payload Ext} (h : Accounted s) {random : Bytes}
    (hfresh : ∀ x ∈ s.issued, x.1 ≠ hexEncode random) (nowMs : ℕ) :
    Accounted { s with
      nonces := s.nonces.issue random nowMs
      issued := (hexEncode random, saturatingAdd nowMs nonceTtlMs) :: s.issued } where
  live nonce expiry hlookup := by
    rcases lookup_issue hlookup with ⟨hnonce, hexpiry⟩ | hbefore
    · refine ⟨by rw [hnonce, hexpiry]; exact List.mem_cons_self, fun hused => ?_⟩
      rw [hnonce] at hused
      obtain ⟨x, hx, hnonce⟩ := List.mem_map.mp hused
      obtain ⟨expiry, hissued, -⟩ := h.timely x hx
      exact hfresh _ hissued hnonce
    · exact ⟨List.mem_cons_of_mem _ (h.live nonce expiry hbefore).1, (h.live nonce expiry hbefore).2⟩
  timely x hx := by
    obtain ⟨expiry, hissued, hle⟩ := h.timely x hx
    exact ⟨expiry, List.mem_cons_of_mem _ hissued, hle⟩
  once := h.once

/-- A request that passes uses its nonce up. -/
theorem accounted_pass {s : Service Payload Ext} (h : Accounted s) {nonce : Text} {nowMs expiry : ℕ}
    (hconsume : (s.nonces.consume nonce nowMs).2 = .ok expiry) :
    Accounted { s with
      nonces := (s.nonces.consume nonce nowMs).1
      passed := (nonce, nowMs) :: s.passed } := by
  obtain ⟨hlookup, hle⟩ := consume_ok hconsume
  exact {
    live := fun nonce' expiry' hafter => by
      obtain ⟨hbefore, hne⟩ := lookup_consume hafter
      refine ⟨(h.live nonce' expiry' hbefore).1, fun hused => ?_⟩
      rcases List.mem_cons.mp hused with heq | hused
      · exact hne heq expiry hconsume
      · exact (h.live nonce' expiry' hbefore).2 hused
    timely := fun x hx => by
      rcases List.mem_cons.mp hx with rfl | hx
      · exact ⟨expiry, (h.live nonce expiry hlookup).1, hle⟩
      · exact h.timely x hx
    once := List.nodup_cons.mpr ⟨(h.live nonce expiry hlookup).2, h.once⟩ }

/-- A request that fails may use its nonce up too. -/
theorem accounted_fail {s : Service Payload Ext} (h : Accounted s) {nonces : NonceStore}
    (hsub : ∀ nonce expiry, nonces.expiriesByNonce.lookup nonce = some expiry →
      s.nonces.expiriesByNonce.lookup nonce = some expiry) :
    Accounted { s with nonces := nonces } where
  live nonce expiry hlookup := h.live nonce expiry (hsub nonce expiry hlookup)
  timely := h.timely
  once := h.once

theorem accounted_letIn {s : Service Payload Ext} (h : Accounted s) (mode : PushAuthMode)
    (request : ApiRequest Ext) (nowMs : ℕ) : Accounted (letIn env s mode request nowMs) := by
  have hpending {r : Service Payload Ext} (h : Accounted r) (v : VerifiedPushAuth) :
      Accounted (match registryCall env v request with
        | .error _ => r
        | .ok call => { r with pending := r.pending ++ [⟨request, call⟩] }) := by
    cases registryCall env v request with
    | error e => exact h
    | ok call => exact { h with }
  unfold letIn
  cases hauth : request.auth with
  | none =>
    obtain ⟨hsame, -⟩ := authenticate_unsigned env mode s.nonces hauth nowMs
    cases hresult : (authenticate env mode s.nonces request nowMs).2 with
    | error e =>
      simp only [hresult, hsame]
      exact h
    | ok v =>
      simp only [hresult, hsame]
      refine hpending ?_ v
      rw [pass, hauth]
      exact h
  | some auth =>
    obtain ⟨verified, heq⟩ := authenticate_signed env mode s.nonces hauth nowMs
    rw [heq]
    cases verified with
    | error e => exact h
    | ok w =>
      cases hresult : (withNonce s.nonces auth nowMs (.ok w)).2 with
      | error e =>
        simp only [hresult]
        exact accounted_fail h fun nonce expiry hlookup => (lookup_consume hlookup).1
      | ok v =>
        obtain ⟨-, expiry, hconsume⟩ := of_withNonce hresult
        simp only [hresult]
        refine hpending ?_ v
        rw [pass, hauth]
        exact accounted_pass h hconsume

end

/-! ## Signatures -/

section
variable {Address Payload Ext : Type}

/-- Nobody but the holder of a key makes a signature of it: what a signature verifies for is the digest
of a text, or a text, that the holder signed. -/
structure Unforgeable (env : RegistryEnv Address Payload) (walletSigned deviceSigned : Bytes → Text → Prop) :
    Prop where
  wallet : ∀ pubkey digest signature, env.verifySchnorr pubkey digest signature = true →
    ∃ m, walletSigned pubkey m ∧ digest = env.digest (utf8 m)
  device : ∀ key message signature, env.verifyP256 key message signature = true →
    ∃ m, deviceSigned key m ∧ message = utf8 m

/-- The request carries a signature of the wallet's holder over a text for its method and path and for
the token. -/
def WalletSigned (env : RegistryEnv Address Payload) (walletSigned : Bytes → Text → Prop)
    (request : ApiRequest Ext) (walletPubkey token : Text) : Prop :=
  ∃ auth p m pubkey, SignedOver env request auth p m ∧ hexDecode walletPubkey = some pubkey ∧
    walletSigned pubkey m ∧ p.walletPubkey = walletPubkey ∧ p.method = request.fields.method ∧
    p.path = request.fields.path ∧ p.deviceToken = token

/-- The request carries a signature of the device key's holder over a text for its method and path and
for the token and the counter. -/
def DeviceSigned (env : RegistryEnv Address Payload) (deviceSigned : Bytes → Text → Prop)
    (request : ApiRequest Ext) (d : DeviceKeyBinding) (token : Text) : Prop :=
  ∃ auth m key, request.auth = some auth ∧ env.encodeBase64 key = d.publicKeyB64 ∧ deviceSigned key m ∧
    (m = buildDeviceAuthPreimage env.toAuthEnv
        (devicePreimage request.fields.method request.fields.path token d.keyId d.counter auth) ∨
      m = legacyDevicePreimage (buildDeviceAuthPreimage env.toAuthEnv
        (devicePreimage request.fields.method request.fields.path token d.keyId d.counter auth)))

variable {env : RegistryEnv Address Payload} {walletSigned deviceSigned : Bytes → Text → Prop}

theorem decodeHex_trimmed {value field : Text} {b : Bytes} (h : decodeHex value field = .ok b) :
    hexDecode (trim value) = some b := by
  unfold decodeHex at h
  split at h
  · cases h
  · split at h
    · next hb =>
      rw [hb, Except.ok.inj h]
    · cases h

theorem verifySchnorr_signed (hunforged : Unforgeable env walletSigned deviceSigned)
    (hdigest : Function.Injective env.digest) {walletPubkey m signature : Text}
    (h : verifySchnorrSignature env.toAuthEnv walletPubkey m signature = .ok ()) :
    ∃ pubkey, hexDecode (trim walletPubkey) = some pubkey ∧ walletSigned pubkey m := by
  obtain ⟨pubkey, hpubkey, h⟩ := bind_ok h
  split at h
  · cases h
  · obtain ⟨sig, -, h⟩ := bind_ok h
    split at h
    · cases h
    · split at h
      · cases h
      · split at h
        · cases h
        · split at h
          · next hverified =>
            obtain ⟨n, hn, heq⟩ := hunforged.wallet _ _ _ hverified
            obtain rfl : m = n := utf8_injective (hdigest heq)
            exact ⟨pubkey, decodeHex_trimmed hpubkey, hn⟩
          · cases h

/-- A public key that is normalised: lower-case hex of 64 digits. -/
theorem normalizeHexField_spec {value field t : Text} (h : normalizeHexField value 32 field = .ok t) :
    trim t = t ∧ normalizeWalletPubkey t = .ok t := by
  simp only [normalizeHexField] at h
  split at h
  · cases h
  · next hlen =>
    split at h
    · cases h
    · next hhex =>
      obtain rfl := Except.ok.inj h
      have htrim : trim (toAsciiLowercase (trim value)) = toAsciiLowercase (trim value) := by
        rw [trim_toAsciiLowercase, trim_trim]
      refine ⟨htrim, ?_⟩
      simp only [normalizeWalletPubkey]
      rw [htrim, toAsciiLowercase_self fun c => mem_toAsciiLowercase,
        show walletPubkeyHexLen = 32 * 2 from rfl, if_neg hlen, if_neg hhex]

/-- A request that a wallet's signature lets through is signed by the holder of its key. -/
theorem walletSigned_of_over (hunforged : Unforgeable env walletSigned deviceSigned)
    (hdigest : Function.Injective env.digest) {request : ApiRequest Ext} {auth : PushAuthRequest}
    {p : AuthPreimage} {m : Text} (h : SignedOver env request auth p m) {walletPubkey token : Text}
    (hpubkey : normalizeWalletPubkey p.walletPubkey = .ok walletPubkey)
    (htoken : normalizeDeviceToken request.fields.deviceToken = .ok token) :
    WalletSigned env walletSigned request walletPubkey token := by
  have hp := preimage_spec h.preimage
  obtain ⟨htrim, hnormal⟩ := normalizeHexField_spec hp.walletPubkey
  obtain rfl : p.walletPubkey = walletPubkey := Except.ok.inj (hnormal.symm.trans hpubkey)
  obtain ⟨pubkey, hdecode, hm⟩ := verifySchnorr_signed hunforged hdigest h.verified
  rw [htrim] at hdecode
  exact ⟨auth, p, m, pubkey, h, hdecode, hm, rfl, hp.method, hp.path,
    Except.ok.inj (hp.deviceToken.symm.trans htoken)⟩

theorem deviceSigned_of_verify (hunforged : Unforgeable env walletSigned deviceSigned)
    {request : ApiRequest Ext} {auth : PushAuthRequest} (hauth : request.auth = some auth) {token : Text}
    {d : DeviceKeyBinding} (h : verifyDeviceKeyBindingFromAuth env.toAuthEnv request.fields.method
      request.fields.path token auth = .ok (some d)) :
    DeviceSigned env deviceSigned request d token := by
  unfold verifyDeviceKeyBindingFromAuth at h
  split at h
  · cases h
  · split at h
    · cases h
    · split at h
      · cases h
      · obtain ⟨publicKey, -, h⟩ := bind_ok h
        split at h
        · cases h
        · obtain ⟨keyId, -, h⟩ := bind_ok h
          obtain ⟨signature, -, h⟩ := bind_ok h
          dsimp only at h
          split at h
          · next hverified =>
            obtain rfl := Option.some.inj (Except.ok.inj h)
            rcases Bool.or_eq_true_iff.mp hverified with hverified | hverified
            · obtain ⟨m, hm, heq⟩ := hunforged.device _ _ _ hverified
              exact ⟨auth, m, publicKey, hauth, rfl, hm, .inl (utf8_injective heq).symm⟩
            · obtain ⟨m, hm, heq⟩ := hunforged.device _ _ _ hverified
              exact ⟨auth, m, publicKey, hauth, rfl, hm, .inr (utf8_injective heq).symm⟩
          · cases h

end

/-! ## Requests under way -/

section
variable {Address Payload Ext : Type} {env : RegistryEnv Address Payload}
  {walletSigned deviceSigned : Bytes → Text → Prop}

/-- A request that was authenticated, and the call that its handler makes. -/
structure Authentic (env : RegistryEnv Address Payload) (a : Admitted Ext) (v : VerifiedPushAuth) :
    Prop where
  authenticated : ∃ mode nonces nowMs, (authenticate env mode nonces a.request nowMs).2 = .ok v
  handled : registryCall env v a.request = .ok a.call

/-- A wallet or a device key that a request goes on with comes of its signed part. -/
theorem Authentic.signed {a : Admitted Ext} {v : VerifiedPushAuth} (h : Authentic env a v)
    (hbinding : v.walletBinding ≠ none ∨ v.deviceBinding ≠ none) : ∃ auth, a.request.auth = some auth := by
  obtain ⟨mode, nonces, nowMs, hok⟩ := h.authenticated
  cases hauth : a.request.auth with
  | some auth => exact ⟨auth, rfl⟩
  | none =>
    obtain ⟨hwallet, hdevice⟩ := (authenticate_unsigned env mode nonces hauth nowMs).2 v hok
    exact absurd hbinding (by simp [hwallet, hdevice])

theorem Authentic.signed_by_wallet (hunforged : Unforgeable env walletSigned deviceSigned)
    (hdigest : Function.Injective env.digest) {a : Admitted Ext} {v : VerifiedPushAuth}
    (h : Authentic env a v) {wallet : WalletBinding} (hwallet : v.walletBinding = some wallet)
    {walletPubkey token : Text} (hpubkey : normalizeWalletPubkey wallet.walletPubkey = .ok walletPubkey)
    (htoken : normalizeDeviceToken a.request.fields.deviceToken = .ok token) :
    WalletSigned env walletSigned a.request walletPubkey token := by
  obtain ⟨auth, hauth⟩ := h.signed (.inl (by simp [hwallet]))
  obtain ⟨mode, nonces, nowMs, hok⟩ := h.authenticated
  obtain ⟨p, m, hover, rfl⟩ := (signed_of_authenticated hauth hok).2 wallet hwallet
  exact walletSigned_of_over hunforged hdigest hover hpubkey htoken

/-- The device key that an unregistration goes on with signed it. -/
theorem Authentic.signed_by_device (hunforged : Unforgeable env walletSigned deviceSigned)
    {deviceToken : Text} {auth : Option PushAuthRequest} {call : RegistryCall Ext} {v : VerifiedPushAuth}
    (h : Authentic env ⟨.unregister deviceToken auth, call⟩ v) {d : DeviceKeyBinding}
    (hdevice : v.deviceBinding = some d) {token : Text}
    (htoken : normalizeDeviceToken deviceToken = .ok token) :
    DeviceSigned env deviceSigned (.unregister deviceToken auth : ApiRequest Ext) d token := by
  obtain ⟨auth', hauth⟩ := h.signed (.inr (by simp [hdevice]))
  obtain rfl : auth = some auth' := hauth
  obtain ⟨mode, nonces, nowMs, hok⟩ := h.authenticated
  obtain ⟨_, -, hverified⟩ := bind_ok (of_withNonce hok).1
  obtain ⟨token', htoken', hverified⟩ := bind_ok hverified
  obtain ⟨format, -, hverified⟩ := bind_ok hverified
  obtain ⟨device, hbinding, hverified⟩ := bind_ok hverified
  obtain rfl : token = token' := Except.ok.inj (htoken.symm.trans (liftToken_ok htoken'))
  split at hverified
  · cases hverified
  · obtain rfl := Except.ok.inj hverified
    obtain rfl : device = some d := hdevice
    exact deviceSigned_of_verify hunforged rfl hbinding

/-- A signed registration's primary address is the wallet's. -/
theorem Authentic.primary (henv : LawfulAddresses env.toAddressEnv) {a : Admitted Ext}
    {v : VerifiedPushAuth} (h : Authentic env a v) {body : RegistrationRequest Ext}
    (hbody : body? a.request = some body) {wallet : WalletBinding}
    (hwallet : v.walletBinding = some wallet) :
    ∀ t ∈ normalizePrimaryAddress env.toAddressEnv body.primaryAddress, t = wallet.walletAddress := by
  obtain ⟨auth, hauth⟩ := h.signed (.inl (by simp [hwallet]))
  obtain ⟨mode, nonces, nowMs, hok⟩ := h.authenticated
  have hverified := verified_of_body hbody hauth hok
  obtain ⟨_, -, hverified⟩ := bind_ok hverified
  obtain ⟨token, -, hverified⟩ := bind_ok hverified
  obtain ⟨primary, hprimary, hverified⟩ := bind_ok hverified
  obtain ⟨format, -, hverified⟩ := bind_ok hverified
  obtain ⟨capabilities, -, hverified⟩ := bind_ok hverified
  obtain ⟨w, -, hverified⟩ := bind_ok hverified
  obtain ⟨_, hcheck, hverified⟩ := bind_ok hverified
  obtain ⟨device, -, hverified⟩ := bind_ok hverified
  obtain rfl := Except.ok.inj hverified
  obtain rfl : w = wallet := Option.some.inj hwallet
  intro t ht
  rw [← (fields_of_body hbody).2.2.2.1, (primary_spec henv hprimary).1] at ht
  unfold checkPrimaryBinding at hcheck
  split at ht
  · cases ht
  · next hne =>
    obtain rfl := Option.some.inj ht
    split at hcheck
    · cases hcheck
    · next hmatches =>
      by_contra hother
      exact hmatches ⟨.inr hne, hother⟩

/-- What a handler asks is to save its request's body, or to unregister its token, or nothing. -/
theorem Authentic.call_cases {a : Admitted Ext} {v : VerifiedPushAuth} (h : Authentic env a v) :
    (∃ body platform webPush, body? a.request = some body ∧
        (a.call = .register platform (body.args v webPush) ∨ a.call = .update (body.args v webPush))) ∨
      (∃ deviceToken auth token, a.request = .unregister deviceToken auth ∧
        normalizeDeviceToken deviceToken = .ok token ∧
        a.call = .unregisterAuthenticated token (v.walletBinding.map (·.walletPubkey)) v.deviceBinding) ∨
      ∃ token wallet, a.call = .registrationForToken token wallet := by
  obtain ⟨request, call⟩ := a
  have hcall : registryCall env v request = .ok call := h.handled
  cases request with
  | register platform body =>
    obtain ⟨webPush, -, hcall⟩ := bind_ok hcall
    exact .inl ⟨body, platform, webPush, rfl, .inl (Except.ok.inj hcall).symm⟩
  | update body =>
    obtain ⟨webPush, -, hcall⟩ := bind_ok hcall
    exact .inl ⟨body, [], webPush, rfl, .inr (Except.ok.inj hcall).symm⟩
  | unregister deviceToken auth =>
    obtain ⟨token, htoken, hcall⟩ := bind_ok hcall
    exact .inr (.inl ⟨deviceToken, auth, token, rfl, liftToken_ok htoken, (Except.ok.inj hcall).symm⟩)
  | ring deviceToken auth =>
    cases hwallet : v.walletBinding with
    | none =>
      simp only [registryCall, hwallet] at hcall
      cases hcall
    | some wallet =>
      simp only [registryCall, hwallet] at hcall
      obtain ⟨token, -, hcall⟩ := bind_ok hcall
      exact .inr (.inr ⟨token, wallet, (Except.ok.inj hcall).symm⟩)

end

/-! ## Bindings -/

section
variable {Ext : Type}

theorem binding_fields {old : DeviceRegistration Ext} {wallet : WalletBinding}
    (h : registrationWalletBinding old = some wallet) :
    old.walletPubkey = some wallet.walletPubkey ∧ old.walletAddress = some wallet.walletAddress := by
  obtain ⟨pubkey, hpubkey, h⟩ := Option.bind_eq_some_iff.mp h
  obtain ⟨address, haddress, rfl⟩ := Option.map_eq_some_iff.mp h
  exact ⟨hpubkey, haddress⟩

/-- A bound device stays with its wallet, and the request has to name it. -/
theorem resolve_bound {old : DeviceRegistration Ext} {wallet : WalletBinding}
    (hbound : registrationWalletBinding old = some wallet) {provided resolved : Option WalletBinding}
    (h : resolveWalletBinding (some old) provided = .ok resolved) :
    resolved = some wallet ∧
      ∃ w, provided = some w ∧ normalizeWalletPubkey w.walletPubkey = .ok wallet.walletPubkey := by
  cases provided with
  | none =>
    simp only [resolveWalletBinding, Option.bind_some, hbound] at h
    cases h
  | some w =>
    simp only [resolveWalletBinding, Option.bind_some, hbound] at h
    obtain ⟨pubkey, hpubkey, h⟩ := bind_ok h
    split at h
    · cases h
    · next hsame =>
      obtain rfl : pubkey = wallet.walletPubkey := by
        by_contra hne
        exact hsame (.inl hne)
      exact ⟨(Except.ok.inj h).symm, w, rfl, hpubkey⟩

/-- The wallet that a device is bound to has the address of the one that the request names. -/
theorem resolve_address {existing : Option (DeviceRegistration Ext)} {provided : Option WalletBinding}
    {wallet : WalletBinding} (h : resolveWalletBinding existing provided = .ok (some wallet)) :
    ∃ w, provided = some w ∧ w.walletAddress = wallet.walletAddress := by
  unfold resolveWalletBinding at h
  split at h
  · next bound w hbound =>
    obtain ⟨pubkey, -, h⟩ := bind_ok h
    split at h
    · cases h
    · next hsame =>
      obtain rfl := Option.some.inj (Except.ok.inj h)
      refine ⟨w, rfl, ?_⟩
      by_contra hne
      exact hsame (.inr hne)
  · cases h
  · next w hbound =>
    obtain ⟨pubkey, -, h⟩ := bind_ok h
    obtain rfl := Option.some.inj (Except.ok.inj h)
    exact ⟨w, rfl, rfl⟩
  · cases h

/-- What unregisters a bound device by its wallet's key alone. -/
theorem validate_bound {old : DeviceRegistration Ext} {wallet : WalletBinding}
    (hbound : registrationWalletBinding old = some wallet) {pubkey : Option Text}
    (h : validateUnregisterBinding (some old) pubkey = .ok ()) : pubkey = some wallet.walletPubkey := by
  cases pubkey with
  | none =>
    simp only [validateUnregisterBinding, Option.bind_some, (binding_fields hbound).1] at h
    cases h
  | some provided =>
    simp only [validateUnregisterBinding, Option.bind_some, (binding_fields hbound).1] at h
    split at h
    · cases h
    · next hsame =>
      rw [not_not.mp hsame]

theorem given_pubkey {walletBinding : Option WalletBinding} {pubkey : Text}
    (h : normalizeGivenPubkey (walletBinding.map (·.walletPubkey)) = .ok (some pubkey)) :
    ∃ w, walletBinding = some w ∧ normalizeWalletPubkey w.walletPubkey = .ok pubkey := by
  cases walletBinding with
  | none => cases h
  | some w =>
    obtain ⟨t, ht, heq⟩ := map_ok h
    obtain rfl := Option.some.inj heq
    exact ⟨w, rfl, ht⟩

/-- The device key is the one that is stored, with a greater counter, unless none is stored. -/
def KeyAdvances (old : DeviceRegistration Ext) (d : DeviceKeyBinding) : Prop :=
  ∀ stored ∈ registrationDeviceKeyBinding old,
    d.keyId = stored.keyId ∧ d.publicKeyB64 = stored.publicKeyB64 ∧ stored.counter < d.counter

theorem keyAdvances_of_matches {old : DeviceRegistration Ext} {d : DeviceKeyBinding}
    (h : deviceBindingMatchesRegistration (some old) d = true) : KeyAdvances old d := by
  intro stored hstored
  obtain ⟨keyId, hkeyId, hstored⟩ := Option.bind_eq_some_iff.mp hstored
  obtain ⟨key, hkey, rfl⟩ := Option.map_eq_some_iff.mp hstored
  simp only [deviceBindingMatchesRegistration, hkeyId, hkey, Bool.and_eq_true, beq_iff_eq,
    decide_eq_true_eq] at h
  exact ⟨h.1.1.symm, h.1.2.symm, h.2⟩

end

/-! ## Steps -/

section
variable {Address Payload Ext : Type} [DecidableEq Payload] [DecidableEq Ext]

/-- What a registration that is bound to a wallet may become of an event. -/
inductive Obeys (env : RegistryEnv Address Payload) (walletSigned deviceSigned : Bytes → Text → Prop)
    (s : Service Payload Ext) (token : Text) (wallet : WalletBinding) (old : DeviceRegistration Ext) :
    Event Ext → Option (DeviceRegistration Ext) → Prop
  | kept (e : Event Ext) : Obeys env walletSigned deviceSigned s token wallet old e (some old)
  | learned (t environment : Text) (commit : Except Text Unit) (ht : normalizeDeviceToken t = .ok token) :
      Obeys env walletSigned deviceSigned s token wallet old (.learned t environment commit)
        (some { old with apnsEnvironment := some environment })
  | changed {index now : ℕ} {commit retry : Except Text Unit} {a : Admitted Ext}
      {new : DeviceRegistration Ext} (ha : s.pending[index]? = some a)
      (hsigned : WalletSigned env walletSigned a.request wallet.walletPubkey token)
      (hbound : registrationWalletBinding new = some wallet) :
      Obeys env walletSigned deviceSigned s token wallet old (.perform index now commit retry) (some new)
  | removed {index now : ℕ} {commit retry : Except Text Unit} {deviceToken : Text}
      {auth : Option PushAuthRequest} {call : RegistryCall Ext}
      (ha : s.pending[index]? = some ⟨.unregister deviceToken auth, call⟩)
      (hsigned : WalletSigned env walletSigned (.unregister deviceToken auth : ApiRequest Ext)
        wallet.walletPubkey token) :
      Obeys env walletSigned deviceSigned s token wallet old (.perform index now commit retry) none
  | removedByDevice {index now : ℕ} {commit retry : Except Text Unit} {deviceToken : Text}
      {auth : Option PushAuthRequest} {call : RegistryCall Ext} {d : DeviceKeyBinding}
      (ha : s.pending[index]? = some ⟨.unregister deviceToken auth, call⟩)
      (hsigned : DeviceSigned env deviceSigned (.unregister deviceToken auth : ApiRequest Ext) d token)
      (hadvances : KeyAdvances old d) :
      Obeys env walletSigned deviceSigned s token wallet old (.perform index now commit retry) none
  | dead (t : Text) (commit : Except Text Unit) (ht : normalizeDeviceToken t = .ok token) :
      Obeys env walletSigned deviceSigned s token wallet old (.dead t commit) none

variable {env : RegistryEnv Address Payload} {walletSigned deviceSigned : Bytes → Text → Prop}

omit [DecidableEq Payload] [DecidableEq Ext] in
theorem binding_build (env : RegistryEnv Address Payload) (n : Normalized Payload)
    (args : RegistrationArgs Ext) (existing : Option (DeviceRegistration Ext))
    (wallet : Option WalletBinding) (device : Option DeviceKeyBinding) (now : ℕ) :
    registrationWalletBinding (buildRegistration env n args existing wallet device now) = wallet := by
  cases wallet with
  | none => rfl
  | some wallet => rfl

/-- A registration or an update leaves a device as it is or stores what was prepared for it. -/
theorem save_lookup (env : RegistryEnv Address Payload) (r : Registry Payload Ext)
    (platform : Option Text) (args : RegistrationArgs Ext) (now : ℕ) (commit : Except Text Unit)
    (token : Text) :
    (save env r platform args now commit).1.devices.lookup token = r.devices.lookup token ∨
      ∃ n registration, prepare env r platform args now = .ok (n, registration) ∧ n.token = token ∧
        (save env r platform args now commit).1.devices.lookup token = some registration := by
  rcases save_cases env r platform args now commit with
    ⟨e, -, he⟩ | ⟨n, registration, hprepare, ⟨old, -, -, hout⟩ | ⟨-, global, hout⟩⟩
  · exact .inl (by rw [he])
  · exact .inl (by rw [hout]; rfl)
  · rw [hout]
    by_cases htoken : token = n.token
    · subst htoken
      exact .inr ⟨n, registration, hprepare, rfl, AList.lookup_insert _⟩
    · exact .inl (AList.lookup_insert_ne htoken)

omit [DecidableEq Ext] in
theorem lookup_erased (env : RegistryEnv Address Payload) (r : Registry Payload Ext) (token t : Text)
    (global : List Payload) :
    ({ clearCaches (eraseRegistration env r t) t with watchOnlyGlobal := global } :
        Registry Payload Ext).devices.lookup token =
      if token = t then none else r.devices.lookup token := by
  show (eraseRegistration env r t).devices.lookup token = _
  rw [devices_erase]
  split
  · next htoken => rw [htoken, AList.lookup_erase]
  · next htoken => rw [AList.lookup_erase_ne htoken]

/-- Saving the body of a request leaves a bound device alone or is signed by its wallet. -/
theorem obeys_save (hunforged : Unforgeable env walletSigned deviceSigned)
    (hdigest : Function.Injective env.digest) {s : Service Payload Ext} {token : Text}
    {wallet : WalletBinding} {old : DeviceRegistration Ext}
    (hlookup : s.registry.devices.lookup token = some old)
    (hbound : registrationWalletBinding old = some wallet) {index : ℕ} {a : Admitted Ext}
    (ha : s.pending[index]? = some a) {v : VerifiedPushAuth} (hauthentic : Authentic env a v)
    {body : RegistrationRequest Ext} (hbody : body? a.request = some body)
    (platform : Option Text) (webPush : Option WebPushSubscription) (now now' : ℕ)
    (commit commit' retry : Except Text Unit) :
    Obeys env walletSigned deviceSigned s token wallet old (.perform index now' commit' retry)
      ((save env s.registry platform (body.args v webPush) now commit).1.devices.lookup token) := by
  rcases save_lookup env s.registry platform (body.args v webPush) now commit token with
    hsame | ⟨n, registration, hprepare, rfl, hnew⟩
  · rw [hsame, hlookup]
    exact .kept _
  · obtain ⟨hn, resolved, device, hresolve, -, rfl⟩ := prepare_spec hprepare
    rw [hlookup] at hresolve
    obtain ⟨rfl, w, hw, hpubkey⟩ := resolve_bound hbound hresolve
    have htoken : normalizeDeviceToken a.request.fields.deviceToken = .ok n.token := by
      rw [(fields_of_body hbody).2.2.2.2]
      exact (normalizeArgs_spec hn).token
    rw [hnew]
    exact .changed ha (hauthentic.signed_by_wallet hunforged hdigest hw hpubkey htoken)
      (binding_build env n _ _ _ _ _)

theorem obeys_perform (hunforged : Unforgeable env walletSigned deviceSigned)
    (hdigest : Function.Injective env.digest) {s : Service Payload Ext}
    (hpending : ∀ a ∈ s.pending, ∃ v, Authentic env a v) {token : Text} {wallet : WalletBinding}
    {old : DeviceRegistration Ext} (hlookup : s.registry.devices.lookup token = some old)
    (hbound : registrationWalletBinding old = some wallet) (index now : ℕ)
    (commit retry : Except Text Unit) :
    Obeys env walletSigned deviceSigned s token wallet old (.perform index now commit retry)
      ((step env s (.perform index now commit retry)).registry.devices.lookup token) := by
  cases ha : s.pending[index]? with
  | none =>
    simp only [step, ha, hlookup]
    exact .kept _
  | some a =>
    simp only [step, ha]
    obtain ⟨v, hauthentic⟩ := hpending a (List.mem_of_getElem? ha)
    rcases hauthentic.call_cases with ⟨body, platform, webPush, hbody, hcall | hcall⟩ |
      ⟨deviceToken, auth, t, hrequest, ht, hcall⟩ | ⟨t, w, hcall⟩
    · rw [hcall]
      exact obeys_save hunforged hdigest hlookup hbound ha hauthentic hbody _ _ _ _ _ _ _
    · rw [hcall]
      exact obeys_save hunforged hdigest hlookup hbound ha hauthentic hbody _ _ _ _ _ _ _
    · obtain ⟨request, call⟩ := a
      obtain rfl : request = .unregister deviceToken auth := hrequest
      obtain rfl : call = _ := hcall
      rcases unregisterAuthenticated_cases env s.registry t (v.walletBinding.map (·.walletPubkey))
        v.deviceBinding commit retry with hsame | ⟨t', ht', hmay, global, hout⟩
      · rw [perform, hsame, hlookup]
        exact .kept _
      · obtain rfl := Except.ok.inj ((normalizeDeviceToken_idem ht).symm.trans ht')
        rw [perform, hout, lookup_erased]
        split
        · next htoken =>
          subst htoken
          rw [MayUnregister, hlookup] at hmay
          rcases hmay with ⟨pubkey, hgiven, hvalid⟩ | ⟨d, hd, hmatches⟩
          · obtain rfl := validate_bound hbound hvalid
            obtain ⟨w, hw, hpubkey⟩ := given_pubkey hgiven
            exact .removed ha (hauthentic.signed_by_wallet hunforged hdigest hw hpubkey ht)
          · exact .removedByDevice ha (hauthentic.signed_by_device hunforged hd ht)
              (keyAdvances_of_matches hmatches)
        · rw [hlookup]
          exact .kept _
    · rw [hcall, perform, hlookup]
      exact .kept _

theorem obeys_step (hunforged : Unforgeable env walletSigned deviceSigned)
    (hdigest : Function.Injective env.digest) {s : Service Payload Ext}
    (hpending : ∀ a ∈ s.pending, ∃ v, Authentic env a v) {token : Text} {wallet : WalletBinding}
    {old : DeviceRegistration Ext} (hlookup : s.registry.devices.lookup token = some old)
    (hbound : registrationWalletBinding old = some wallet) (e : Event Ext) :
    Obeys env walletSigned deviceSigned s token wallet old e
      ((step env s e).registry.devices.lookup token) := by
  cases e with
  | challenge random nowMs =>
    rw [step, hlookup]
    exact .kept _
  | request mode request nowMs =>
    have hsame : (step env s (.request mode request nowMs)).registry = s.registry := by
      simp only [step, letIn]
      split
      · rfl
      · split <;> rfl
    rw [hsame, hlookup]
    exact .kept _
  | perform index now commit retry =>
    exact obeys_perform hunforged hdigest hpending hlookup hbound index now commit retry
  | dead t commit =>
    rcases unregisterInner_cases env s.registry t none false commit with
      ⟨e, he⟩ | ⟨t', ht', -, -, global, hout⟩
    · rw [step, he, hlookup]
      exact .kept _
    · rw [step, hout, lookup_erased]
      split
      · next htoken => exact .dead t commit (htoken ▸ ht')
      · rw [hlookup]
        exact .kept _
  | learned t environment commit =>
    rcases setApnsEnvironment_cases s.registry t environment commit with
      hsame | ⟨t', other, ht', hother, hout⟩
    · rw [step, hsame, hlookup]
      exact .kept _
    · rw [step, hout]
      by_cases htoken : token = t'
      · subst htoken
        obtain rfl := Option.some.inj (hlookup.symm.trans hother)
        rw [AList.lookup_insert]
        exact .learned t environment commit ht'
      · rw [AList.lookup_insert_ne htoken, hlookup]
        exact .kept _

/-! ## Runs -/

omit [DecidableEq Payload] [DecidableEq Ext] in
theorem letIn_registry (env : RegistryEnv Address Payload) (s : Service Payload Ext) (mode : PushAuthMode)
    (request : ApiRequest Ext) (nowMs : ℕ) :
    (letIn env s mode request nowMs).registry = s.registry ∧
      (letIn env s mode request nowMs).issued = s.issued := by
  unfold letIn
  dsimp only
  split
  · exact ⟨rfl, rfl⟩
  · split
    · exact ⟨rfl, rfl⟩
    · exact ⟨rfl, rfl⟩

theorem authentic_step {s : Service Payload Ext} (h : ∀ a ∈ s.pending, ∃ v, Authentic env a v)
    (e : Event Ext) : ∀ a ∈ (step env s e).pending, ∃ v, Authentic env a v := by
  cases e with
  | challenge random nowMs => exact h
  | request mode request nowMs =>
    intro a ha
    simp only [step, letIn] at ha
    split at ha
    · exact h a ha
    · next v hok =>
      split at ha
      · exact h a ha
      · next call hcall =>
        rcases List.mem_append.mp ha with ha | ha
        · exact h a ha
        · obtain rfl := List.mem_singleton.mp ha
          exact ⟨v, ⟨mode, s.nonces, nowMs, hok⟩, hcall⟩
  | perform index now commit retry =>
    intro a ha
    simp only [step] at ha
    split at ha
    · exact h a ha
    · exact h a (List.mem_of_mem_eraseIdx ha)
  | dead token commit => exact h
  | learned token environment commit => exact h

theorem authentic_run (env : RegistryEnv Address Payload) (events : List (Event Ext)) :
    ∀ a ∈ (run env events).pending, ∃ v, Authentic env a v := by
  induction events using List.reverseRecOn with
  | nil => simp [run, Service.new]
  | append_singleton events e ih =>
    rw [run_append_singleton]
    exact authentic_step ih e

/-- The primary address of a device that is bound to a wallet is the wallet's. -/
def Owned (r : Registry Payload Ext) : Prop :=
  ∀ token old wallet, r.devices.lookup token = some old → registrationWalletBinding old = some wallet →
    ∀ t ∈ old.primaryAddress, t = wallet.walletAddress

theorem owned_save (henv : LawfulAddresses env.toAddressEnv) {r : Registry Payload Ext} (h : Owned r)
    {a : Admitted Ext} {v : VerifiedPushAuth} (hauthentic : Authentic env a v)
    {body : RegistrationRequest Ext} (hbody : body? a.request = some body) (platform : Option Text)
    (webPush : Option WebPushSubscription) (now : ℕ) (commit : Except Text Unit) :
    Owned (save env r platform (body.args v webPush) now commit).1 := by
  intro token old wallet hlookup hbound
  rcases save_lookup env r platform (body.args v webPush) now commit token with
    hsame | ⟨n, registration, hprepare, rfl, hnew⟩
  · rw [hsame] at hlookup
    exact h token old wallet hlookup hbound
  · obtain rfl := Option.some.inj (hlookup.symm.trans hnew)
    obtain ⟨hn, resolved, device, hresolve, -, rfl⟩ := prepare_spec hprepare
    rw [binding_build] at hbound
    obtain ⟨w, hw, haddress⟩ := resolve_address (hbound ▸ hresolve)
    intro t ht
    have hprimary : n.primary.map Prod.fst =
        normalizePrimaryAddress env.toAddressEnv body.primaryAddress :=
      (normalizePrimary_spec henv (normalizeArgs_spec hn).primary).1
    rw [← haddress]
    exact hauthentic.primary henv hbody hw t (hprimary ▸ ht)

theorem owned_step (henv : LawfulAddresses env.toAddressEnv) {s : Service Payload Ext}
    (hpending : ∀ a ∈ s.pending, ∃ v, Authentic env a v) (h : Owned s.registry) (e : Event Ext) :
    Owned (step env s e).registry := by
  have herased (t : Text) (global : List Payload) :
      Owned { clearCaches (eraseRegistration env s.registry t) t with watchOnlyGlobal := global } := by
    intro token old wallet hlookup hbound
    rw [lookup_erased] at hlookup
    split at hlookup
    · cases hlookup
    · exact h token old wallet hlookup hbound
  cases e with
  | challenge random nowMs => exact h
  | request mode request nowMs =>
    rw [step, (letIn_registry env s mode request nowMs).1]
    exact h
  | perform index now commit retry =>
    cases ha : s.pending[index]? with
    | none =>
      simp only [step, ha]
      exact h
    | some a =>
      simp only [step, ha]
      obtain ⟨v, hauthentic⟩ := hpending a (List.mem_of_getElem? ha)
      rcases hauthentic.call_cases with ⟨body, platform, webPush, hbody, hcall | hcall⟩ |
        ⟨deviceToken, auth, t, -, -, hcall⟩ | ⟨t, w, hcall⟩
      · rw [hcall]
        exact owned_save henv h hauthentic hbody _ _ _ _
      · rw [hcall]
        exact owned_save henv h hauthentic hbody _ _ _ _
      · rw [hcall, perform]
        rcases unregisterAuthenticated_cases env s.registry t (v.walletBinding.map (·.walletPubkey))
          v.deviceBinding commit retry with hsame | ⟨t', -, -, global, hout⟩
        · rw [hsame]
          exact h
        · rw [hout]
          exact herased t' global
      · rw [hcall]
        exact h
  | dead t commit =>
    rcases unregisterInner_cases env s.registry t none false commit with
      ⟨e, he⟩ | ⟨t', -, -, -, global, hout⟩
    · rw [step, he]
      exact h
    · rw [step, hout]
      exact herased t' global
  | learned t environment commit =>
    rcases setApnsEnvironment_cases s.registry t environment commit with
      hsame | ⟨t', other, -, hother, hout⟩
    · rw [step, hsame]
      exact h
    · intro token old wallet hlookup hbound
      rw [step, hout] at hlookup
      by_cases htoken : token = t'
      · subst htoken
        rw [AList.lookup_insert] at hlookup
        obtain rfl := Option.some.inj hlookup
        exact h token other wallet hother hbound
      · rw [AList.lookup_insert_ne htoken] at hlookup
        exact h token old wallet hlookup hbound

theorem owned_run (henv : LawfulAddresses env.toAddressEnv) (events : List (Event Ext)) :
    Owned (run env events).registry := by
  induction events using List.reverseRecOn with
  | nil =>
    intro token old wallet hlookup
    rw [run, List.foldl_nil, Service.new, Registry.new, AList.lookup_empty] at hlookup
    cases hlookup
  | append_singleton events e ih =>
    rw [run_append_singleton]
    exact owned_step henv (authentic_run env events) ih e

omit [DecidableEq Payload] [DecidableEq Ext] in
/-- What becomes of a bound registration is bound to the same wallet, where it is not gone. -/
theorem Obeys.bound {s : Service Payload Ext} {token : Text} {wallet : WalletBinding}
    {old new : DeviceRegistration Ext} {e : Event Ext}
    (h : Obeys env walletSigned deviceSigned s token wallet old e (some new))
    (hbound : registrationWalletBinding old = some wallet) :
    registrationWalletBinding new = some wallet := by
  cases h with
  | kept => exact hbound
  | learned => exact hbound
  | changed ha hsigned hnew => exact hnew

/-- A bound device stays bound to its wallet until it is removed. -/
theorem bound_until_removed (hunforged : Unforgeable env walletSigned deviceSigned)
    (hdigest : Function.Injective env.digest) (events : List (Event Ext)) {token : Text}
    {wallet : WalletBinding} {old : DeviceRegistration Ext}
    (hlookup : (run env events).registry.devices.lookup token = some old)
    (hbound : registrationWalletBinding old = some wallet) (later : List (Event Ext))
    (hkept : ∀ part, part <+: later →
      (run env (events ++ part)).registry.devices.lookup token ≠ none) :
    ∃ new, (run env (events ++ later)).registry.devices.lookup token = some new ∧
      registrationWalletBinding new = some wallet := by
  induction later using List.reverseRecOn with
  | nil => exact ⟨old, by rwa [List.append_nil], hbound⟩
  | append_singleton later e ih =>
    obtain ⟨mid, hmid, hmidBound⟩ := ih fun part hpart =>
      hkept part (hpart.trans (List.prefix_append later [e]))
    obtain ⟨new, hnew⟩ := Option.ne_none_iff_exists'.mp (hkept (later ++ [e]) List.prefix_rfl)
    have hobeys := obeys_step hunforged hdigest (authentic_run env (events ++ later)) hmid hmidBound e
    rw [← run_append_singleton, List.append_assoc, hnew] at hobeys
    exact ⟨new, hnew, hobeys.bound hmidBound⟩

theorem issued_run (env : RegistryEnv Address Payload) (events : List (Event Ext)) :
    (run env events).issued.map Prod.fst = ((drawn events).map hexEncode).reverse := by
  induction events using List.reverseRecOn with
  | nil => rfl
  | append_singleton events e ih =>
    rw [run_append_singleton]
    cases e with
    | challenge random nowMs =>
      simp only [step, List.map_cons]
      rw [ih, drawn_append, List.map_append, List.reverse_append]
      rfl
    | request mode request nowMs =>
      rw [step, (letIn_registry env _ mode request nowMs).2, ih]
      simp [drawn]
    | perform index now commit retry =>
      have hsame : (step env (run env events) (.perform index now commit retry)).issued =
          (run env events).issued := by
        simp only [step]
        split <;> rfl
      rw [hsame, ih]
      simp [drawn]
    | dead token commit =>
      rw [step, ih]
      simp [drawn]
    | learned token environment commit =>
      rw [step, ih]
      simp [drawn]

theorem accounted_run (env : RegistryEnv Address Payload) {events : List (Event Ext)}
    (hfresh : (drawn events).Nodup) : Accounted (run env events) := by
  induction events using List.reverseRecOn with
  | nil => exact ⟨by simp [run, Service.new, NonceStore.new], by simp [run, Service.new], List.nodup_nil⟩
  | append_singleton events e ih =>
    rw [run_append_singleton]
    rw [drawn_append] at hfresh
    have h := ih (List.nodup_append.mp hfresh).1
    cases e with
    | challenge random nowMs =>
      refine accounted_challenge h (fun x hx heq => ?_) nowMs
      have hmem : x.1 ∈ (run env events).issued.map Prod.fst := List.mem_map_of_mem hx
      rw [issued_run, List.mem_reverse, heq, List.mem_map_of_injective hexEncode_injective] at hmem
      exact (List.nodup_append.mp hfresh).2.2 random hmem random (by simp [drawn]) rfl
    | request mode request nowMs => exact accounted_letIn h mode request nowMs
    | perform index now commit retry =>
      simp only [step]
      split
      · exact h
      · exact { h with }
    | dead token commit => exact { h with }
    | learned token environment commit => exact { h with }

end

/-! ## A sample -/

/-- A signature holds for the one text that was signed. -/
def signedEnv (signed : Text) : RegistryEnv Text Text :=
  { plainEnv with
    verifySchnorr := fun _ digest _ => decide (digest = signed.flatMap String.utf8EncodeChar) }

theorem signedEnv_lawful (signed : Text) : LawfulAddresses (signedEnv signed).toAddressEnv :=
  plainEnv_lawful

theorem signedEnv_unforgeable (signed : Text) :
    Unforgeable (signedEnv signed) (fun _ m => m = signed) fun _ _ => False where
  wallet pubkey digest signature h := ⟨signed, rfl, (of_decide_eq_true h).trans (utf8_eq signed).symm⟩
  device key message signature h := by cases h

/-- The text that the owner of the sample signs. -/
def sampleText : Text := buildAuthPreimage plainEnv.toAuthEnv (samplePreimage [])

/-- A nonce is issued, and the registration that it lets through is stored. -/
def sampleEvents : List (Event Unit) :=
  [.challenge [7] 0, .request .strict (sampleRequest []) 1, .perform 0 0 (.ok ()) (.ok ())]

def sampleToken : Text := List.replicate 64 'c'

def sampleWallet : WalletBinding := ⟨List.replicate 64 'a', "kaspa:q".toList⟩

theorem sample_bound : ∃ old,
    (run (signedEnv sampleText) sampleEvents).registry.devices.lookup sampleToken = some old ∧
      registrationWalletBinding old = some sampleWallet ∧ old.apnsEnvironment = none := by
  have hbound : ((run (signedEnv sampleText) sampleEvents).registry.devices.lookup sampleToken).map
      (fun old => (registrationWalletBinding old, old.apnsEnvironment)) = some (some sampleWallet, none) := by
    decide +kernel
  obtain ⟨old, hold, hfields⟩ := Option.map_eq_some_iff.mp hbound
  obtain ⟨hwallet, henvironment⟩ := Prod.mk.inj hfields
  exact ⟨old, hold, hwallet, henvironment⟩

theorem learned_lookup {env : RegistryEnv Text Text} {s : Service Text Unit} {token : Text}
    {old : DeviceRegistration Unit} (htoken : normalizeDeviceToken token = .ok token)
    (hold : s.registry.devices.lookup token = some old) {environment : Text}
    (hne : old.apnsEnvironment ≠ some environment) :
    (step env s (.learned token environment (.ok ()))).registry.devices.lookup token =
      some { old with apnsEnvironment := some environment } := by
  simp only [step, setApnsEnvironment, htoken, hold, if_neg hne]
  exact AList.lookup_insert _

end KaChatIndexer.PushOwnership

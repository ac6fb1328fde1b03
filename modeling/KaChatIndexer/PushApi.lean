import KaChatIndexer.PushRegistry

/-!
# The push endpoints

Each handler authenticates its request, which may use up a nonce, and then sends one command to the
registry actor.
-/
namespace KaChatIndexer.PushApi
open ByteStrings KaText PushFields PushAuth PushRegistry

/-- A registration's or an update's body. -/
structure RegistrationRequest (Ext : Type) where
  deviceToken : Text
  watchedAddresses : List Text
  watchedGroupIds : Option (List Text)
  capabilities : List Text
  primaryAddress : Option Text
  aliases : List Text
  extension : Ext
  watchOnlyAddresses : List Text
  apnsEnvironment : Option Text
  voipToken : Option Text
  webPush : Option WebPushSubscription
  apnsTopic : Option Text
  androidChannelId : Option Text
  auth : Option PushAuthRequest

inductive ApiRequest (Ext : Type)
  | register (platform : Text) (body : RegistrationRequest Ext)
  | update (body : RegistrationRequest Ext)
  | unregister (deviceToken : Text) (auth : Option PushAuthRequest)
  | ring (deviceToken : Text) (auth : PushAuthRequest)

/-- What a handler asks the registry; for a ring, the caller's registration. -/
inductive RegistryCall (Ext : Type)
  | register (platform : Text) (args : RegistrationArgs Ext)
  | update (args : RegistrationArgs Ext)
  | unregisterAuthenticated (token : Text) (walletPubkey : Option Text)
      (deviceBinding : Option DeviceKeyBinding)
  | registrationForToken (token : Text) (wallet : WalletBinding)

variable {Address Payload Ext : Type}

def RegistrationRequest.fields (body : RegistrationRequest Ext) (method path : Text) : PushFields :=
  ⟨method, path, body.deviceToken, body.watchedAddresses, body.watchedGroupIds, body.capabilities,
    body.primaryAddress, body.aliases⟩

def registerFields (body : RegistrationRequest Ext) : PushFields :=
  body.fields "POST".toList "/v1/push/register".toList

def updateFields (body : RegistrationRequest Ext) : PushFields :=
  body.fields "PUT".toList "/v1/push/update".toList

/-- A ring is signed with the caller's own wallet as its primary address. -/
def ringFields (deviceToken : Text) (auth : PushAuthRequest) : PushFields :=
  ⟨"POST".toList, "/v1/push/ring".toList, deviceToken, [], none, [], some auth.walletAddress, []⟩

/-- What the signature of a request is about. -/
def ApiRequest.fields : ApiRequest Ext → PushFields
  | register _ body => registerFields body
  | update body => updateFields body
  | unregister deviceToken _ => unregisterFields deviceToken
  | ring deviceToken auth => ringFields deviceToken auth

def ApiRequest.auth : ApiRequest Ext → Option PushAuthRequest
  | register _ body | update body => body.auth
  | unregister _ auth => auth
  | ring _ auth => some auth

section
variable (env : RegistryEnv Address Payload)

def validateWebPush (platform : Option Text) (deviceToken : Text)
    (webPush : Option WebPushSubscription) : Except PushApiError (Option WebPushSubscription) :=
  match webPush with
  | none =>
    if platform = some "web".toList then
      .error (badRequest "web_push is required for platform web".toList)
    else .ok none
  | some sub =>
    if trim sub.endpoint ≠ trim deviceToken then
      .error (badRequest "web_push.endpoint must equal device_token".toList)
    else do
      let p256dh ← decodeBase64Any env.toAuthEnv sub.p256dh "web_push.p256dh".toList
      if p256dh.length ≠ 65 ∨ p256dh.head? ≠ some 4 then
        .error (badRequest "web_push.p256dh must be a 65-byte uncompressed P-256 point".toList)
      else
        let auth ← decodeBase64Any env.toAuthEnv sub.auth "web_push.auth".toList
        if auth.length ≠ 16 then .error (badRequest "web_push.auth must be 16 bytes".toList)
        else .ok (some ⟨trim sub.endpoint, env.encodeBase64Url p256dh, env.encodeBase64Url auth⟩)

def RegistrationRequest.args (body : RegistrationRequest Ext) (verified : VerifiedPushAuth)
    (webPush : Option WebPushSubscription) : RegistrationArgs Ext where
  token := body.deviceToken
  watchedAddresses := body.watchedAddresses
  watchedGroupIds := body.watchedGroupIds.getD []
  capabilities := verified.capabilities
  primaryAddress := body.primaryAddress
  aliases := body.aliases
  extension := body.extension
  watchOnlyAddresses := body.watchOnlyAddresses
  apnsEnvironment := body.apnsEnvironment
  voipToken := body.voipToken
  webPush := webPush
  apnsTopic := body.apnsTopic
  androidChannelId := body.androidChannelId
  walletBinding := verified.walletBinding
  deviceKeyBinding := verified.deviceBinding

def authenticate (mode : PushAuthMode) (s : NonceStore) (request : ApiRequest Ext) (nowMs : ℕ) :
    NonceStore × Except PushApiError VerifiedPushAuth :=
  match request with
  | .unregister deviceToken auth =>
      authenticateUnregisterRequest env.toAuthEnv mode s deviceToken auth nowMs
  | request => authenticatePushRequest env.toAuthEnv mode s request.fields request.auth nowMs

def registryCall (verified : VerifiedPushAuth) : ApiRequest Ext → Except PushApiError (RegistryCall Ext)
  | .register platform body => do
      let webPush ← validateWebPush env (some (toAsciiLowercase (trim platform))) body.deviceToken
        body.webPush
      .ok (.register platform (body.args verified webPush))
  | .update body => do
      let webPush ← validateWebPush env none body.deviceToken body.webPush
      .ok (.update (body.args verified webPush))
  | .unregister deviceToken _ => do
      let token ← liftToken (normalizeDeviceToken deviceToken)
      .ok (.unregisterAuthenticated token (verified.walletBinding.map (·.walletPubkey))
        verified.deviceBinding)
  | .ring deviceToken _ =>
      match verified.walletBinding with
      | none => .error (unauthorized "ring requires signed wallet auth".toList)
      | some wallet => do
          let token ← liftToken (normalizeDeviceToken deviceToken)
          .ok (.registrationForToken token wallet)

/-- A handler, up to what it asks the registry. -/
def handle (mode : PushAuthMode) (s : NonceStore) (request : ApiRequest Ext) (nowMs : ℕ) :
    NonceStore × Except PushApiError (RegistryCall Ext) :=
  let (s, verified) := authenticate env mode s request nowMs
  (s, verified.bind fun verified => registryCall env verified request)

/-- The registry's part: `now`, and what its commits come to. -/
def perform [DecidableEq Payload] [DecidableEq Ext] (r : Registry Payload Ext) (now : ℕ)
    (commit retry : Except Text Unit) : RegistryCall Ext → Registry Payload Ext × Except Text Unit
  | .register platform args => PushRegistry.register env r platform args now commit
  | .update args => PushRegistry.update env r args now commit
  | .unregisterAuthenticated token walletPubkey deviceBinding =>
      unregisterAuthenticated env r token walletPubkey deviceBinding commit retry
  | .registrationForToken _ _ => (r, .ok ())

end

end KaChatIndexer.PushApi

import AuthMe.Login.State

/-!
# The login routes

The routes of `src/src/routes/interactions.js` and `src/src/routes/federation.js` that can
finish a login, the brokers that they call (`src/src/federation/oidc.js`,
`src/src/federation/saml-broker.js`, `src/src/federation/ldap.js`), `resolveFederatedLogin` and
`accountResolver`, as programs over the operations of `Login.State`.

A route is modelled from the point where the interaction and the CSRF token have been
checked, and where a malformed form has been refused. The audit log, the rate limits and the
pages that are shown have no effect on a login.
-/

namespace AuthMe.Login

open Service Store

abbrev Route := Program operations

def call (op : Op) : Route op.Res := Program.perform (I := operations) op

abbrev now : Route Instant := call .now

/-- `randomBytes(…).toString('base64url')` and `randomUUID()`. -/
abbrev random : Route String := call .random

abbrev account (op : AccountOp) : Route op.Res := call (.account op)

abbrev passkey (op : PasskeyOp) : Route op.Res := call (.passkey op)

abbrev artifact (op : ArtifactOp) : Route op.Res := call (.artifact op)

abbrev upstream (op : UpstreamOp) : Route op.Res := call (.upstream op)

/-- What a route, or a method of a SAML broker, answers. -/
inductive Reply
  | failed
  | finished (login : LoginResult)
  | options (challengeId : String)
  | redirected (value : String)
  | resolved (handle : String)
  | started (relayState requestId : String)
  | validated (interactionUid requestId responseId assertionId : String)
  deriving DecidableEq

def finish (realm uid : String) (login : LoginResult) : Route Reply := do
  call (.interactionFinished realm uid login)
  return .finished login

/-! ## Passwords and LDAP -/

/-- The form of a login: the login name as it is trimmed and cut, and the one-time code. -/
structure LoginForm where
  login : String
  password : String
  otp : Option String
  deriving DecidableEq

/-- `resolveFederatedLogin`; `none` is the error. -/
def resolveFederatedLogin (realm : String) (identity : Identity) (allowCreate : Bool) :
    Route (Option User) := do
  let resolution ← account (.resolve realm identity allowCreate)
  match resolution.status, resolution.user with
  | .resolved, some user | .created, some user =>
    if user.enabled then return some user else return none
  | _, _ => return none

/-- `authenticate` of the LDAP extension: the providers are tried in order. -/
def authenticateLdap (realm login secret : String) :
    List LdapProvider → Route (Option (Identity × Bool))
  | [] => return none
  | provider :: providers => do
    if Text.trim login = "" ∨ secret = "" then authenticateLdap realm login secret providers
    else
      let subject ← upstream (.ldap realm provider.id (Text.trim login) secret)
      match subject with
      | some subject =>
        return some (⟨provider.id, provider.url, subject⟩, provider.jitProvisioning)
      | none => authenticateLdap realm login secret providers

/-- The user, whether the first factor is right, and the authentication method. -/
structure FirstFactor where
  user : Option User
  passwordOk : Bool
  method : String
  deriving DecidableEq

def firstFactor (cfg : Config) (realm : String) (form : LoginForm) : Route FirstFactor := do
  let user ← account (.findUserByLogin realm form.login)
  let hash := (user.map User.passwordHash).getD cfg.dummyPasswordHash
  if cfg.verifyPassword hash form.password then return ⟨user, true, "pwd"⟩
  else
    let ldap ← authenticateLdap realm form.login form.password (cfg.ldapProviders realm)
    match ldap with
    | none => return ⟨user, false, "pwd"⟩
    | some (identity, allowCreate) =>
      let resolved ← resolveFederatedLogin realm identity allowCreate
      match resolved with
      | some user => return ⟨some user, true, "ldap"⟩
      | none => return ⟨none, false, "pwd"⟩

/-- The outcome of the second factor; the secret may fail to decrypt. -/
inductive SecondFactor
  | ok (recoveryUsed : Bool)
  | failed
  | error
  deriving DecidableEq

/-- `${realm}:${user.id}:totp`. -/
def totpContext (realm id : String) : String := realm ++ ":" ++ id ++ ":totp"

/-- `consumeRecoveryCode`, for a code that is not empty. -/
def recoveryFactor (cfg : Config) (realm : String) (user : User) (otp : Option String) :
    Route SecondFactor := do
  match otp.filter (· ≠ "") with
  | none => return .failed
  | some code =>
    let used ← account (.consumeRecoveryCode realm user.id (cfg.recoveryCodeDigest code))
    if used then return .ok true else return .failed

def secondFactor (cfg : Config) (realm : String) (user : User) (otp : Option String) :
    Route SecondFactor := do
  if !user.totpConfirmed then return .ok false
  else
    match user.totpSecret with
    | none => return .failed
    | some ciphertext =>
      match cfg.decryptSecret ciphertext (totpContext realm user.id) with
      | none => return .error
      | some secret =>
        let time ← now
        match cfg.totpStep secret (otp.getD "") time with
        | none => recoveryFactor cfg realm user otp
        | some step =>
          let accepted ← account (.consumeTotpStep realm user.id step)
          if accepted then return .ok false else recoveryFactor cfg realm user otp

/-- The answer to a login that has failed. -/
def reject (realm : String) (user : Option User) (locked : Bool) : Route Reply := do
  match user with
  | none => return .failed
  | some user =>
    if locked then return .failed
    else
      account (.recordLoginFailure realm user.id)
      return .failed

/-- `acr` and `amr` of a login with a password or at an LDAP server. -/
def passwordResult (user : User) (method : String) (recoveryUsed : Bool) : LoginResult :=
  if user.totpConfirmed then
    ⟨user.id, "urn:authme:loa:2", [method, if recoveryUsed then "recovery" else "otp"]⟩
  else ⟨user.id, "urn:authme:loa:1", [method]⟩

/-- The end of a login that has passed. -/
def succeed (realm uid : String) (user : User) (method : String) (recoveryUsed : Bool) :
    Route Reply := do
  account (.recordLoginSuccess realm user.id)
  finish realm uid (passwordResult user method recoveryUsed)

/-- `POST …/login`. -/
def login (cfg : Config) (realm uid : String) (form : LoginForm) : Route Reply := do
  let first ← firstFactor cfg realm form
  let time ← now
  match first.user with
  | none => reject realm none false
  | some user =>
    let locked := user.isLocked time
    if first.passwordOk && user.enabled && !locked then
      let second ← secondFactor cfg realm user form.otp
      match second with
      | .error => return .failed
      | .failed => reject realm (some user) locked
      | .ok recoveryUsed =>
        if first.method = "pwd" ∧ cfg.needsPasswordRehash user.passwordHash then
          let _ ← account (.rehashPasswordIfCurrent realm user.id user.passwordHash)
          succeed realm uid user first.method recoveryUsed
        else succeed realm uid user first.method recoveryUsed
    else reject realm (some user) locked

/-! ## Passkeys -/

/-- `POST …/passkey/options`. The challenge value is that of `authenticationOptions`. -/
def passkeyOptions (cfg : Config) (realm uid value : String) : Route Reply := do
  let time ← now
  let id ← call (.createChallenge {
    realm := realm
    purpose := .authentication
    userId := none
    interactionUid := some uid
    userHandle := none
    challenge := value
    expiresAt := time.ms + cfg.webauthnChallengeTtl * 1000 })
  return .options id

/-- Everything fits: the assertion is verified. -/
def verifyPasskey (cfg : Config) (time : Instant) (challenge : Challenge) (assertion : Assertion)
    (credential : Credential) (user : User) : Option Verification :=
  if user.enabled && !user.isLocked time && assertion.userHandle = credential.userHandle then
    cfg.verifyAuthentication assertion challenge.challenge credential
  else none

/-- The part of the route after the challenge has been consumed. -/
def passkeyAssertion (cfg : Config) (realm uid : String) (challenge : Option Challenge)
    (assertion : Option Assertion) : Route Reply := do
  match assertion with
  | none => return .failed
  | some assertion =>
    let credential ← passkey (.findCredential realm assertion.id)
    match credential with
    | none => return .failed
    | some credential =>
      let user ← account (.findUserById realm credential.userId)
      let time ← now
      match challenge, user with
      | some challenge, some user =>
        match verifyPasskey cfg time challenge assertion credential user with
        | none => return .failed
        | some verification =>
          let updated ← passkey (.updateCounter realm credential.id credential.counter.value
            verification)
          if updated then
            account (.recordLoginSuccess realm user.id)
            finish realm uid ⟨user.id, "urn:authme:loa:2", ["passkey"]⟩
          else return .failed
      | _, _ => return .failed

/-- `POST …/passkey`, for a challenge identifier and an assertion that are well formed. -/
def passkeyLogin (cfg : Config) (realm uid : String) (challengeId : Option String)
    (assertion : Option Assertion) : Route Reply := do
  let challenge ← match challengeId with
    | none => pure none
    | some id => passkey (.consumeChallenge ⟨realm, id, .authentication, none, some uid⟩)
  passkeyAssertion cfg realm uid challenge assertion

/-! ## One-use states -/

/-- `/^[A-Za-z0-9_-]{min,max}$/`. -/
def isToken (min max : Nat) (s : String) : Bool :=
  min ≤ s.toList.length && s.toList.length ≤ max &&
    s.toList.all fun c => ('A' ≤ c && c ≤ 'Z') || ('a' ≤ c && c ≤ 'z') ||
      ('0' ≤ c && c ≤ '9') || c = '_' || c = '-'

/-- `issue` of the state store; `none` when the account of the payload is not available. -/
def issueState (realm : String) (payload : Payload) (expiresIn : Int) :
    Route (Option String) := do
  let state ← random
  match payload.accountId? with
  | none =>
    artifact (.saveState realm state payload none expiresIn)
    return some state
  | some accountId =>
    let version ← account (.securityVersionFor realm accountId)
    match version with
    | none => return none
    | some version =>
      artifact (.saveState realm state payload (some version) expiresIn)
      return some state

/-- The adapters find a record only while the security version of its account is current. -/
def isCurrent (realm : String) (record : StateRecord) : Route Bool := do
  match record.securityVersion, record.payload.accountId? with
  | none, _ => return true
  | some version, some accountId =>
    let current ← account (.securityVersionFor realm accountId)
    return current = some version
  | some _, none => return false

/-- `consume` of the state store; `none` is the error. -/
def consumeState (realm state : String) : Route (Option Payload) := do
  if isToken 32 256 state then
    let found ← artifact (.findState realm state)
    match found with
    | none => return none
    | some record =>
      let current ← isCurrent realm record
      if current then
        let consumed ← artifact (.consumeState realm state)
        if consumed then return some record.payload else return none
      else return none
  else return none

/-! ## The OpenID Connect broker -/

/-- The query of the callback. -/
structure CallbackQuery where
  state : String
  code : Option String
  error : Option String
  iss : Option String
  deriving DecidableEq

/-- What `consume` of a federation extension returns. -/
structure FederationResult where
  interactionUid : String
  identity : Identity
  allowCreate : Bool
  amr : List String
  acr : Option String
  deriving DecidableEq

def oidcProvider (cfg : Config) (realm id : String) : Option OidcProvider :=
  (cfg.oidcProviders realm).find? fun p => p.id = id

def initiateOidc (cfg : Config) (realm uid : String) (p : OidcProvider) :
    Route (Option String) := do
  let nonce ← random
  let codeVerifier ← random
  issueState realm (.oidc ⟨p.id, uid, cfg.callbackUrl realm .oidc p.id, nonce, codeVerifier⟩) 300

/-- `consume` of the broker; `none` is the error. -/
def consumeOidc (cfg : Config) (realm : String) (p : OidcProvider) (query : CallbackQuery) :
    Route (Option FederationResult) := do
  let payload ← consumeState realm query.state
  match payload with
  | some (.oidc transaction) =>
    if transaction.providerId = p.id ∧
        transaction.callbackUrl = cfg.callbackUrl realm .oidc p.id then
      match query.error, query.code with
      | none, some code =>
        if code = "" ∨ (p.requireIssuerParameter ∨ query.iss ≠ none) ∧ query.iss ≠ some p.issuer
        then return none
        else
          let subject ← upstream (.oidc realm p.id code transaction)
          match subject with
          | none => return none
          | some subject =>
            return some ⟨transaction.interactionUid, ⟨p.id, p.issuer, subject.externalSubject⟩,
              p.jitProvisioning, subject.amr, subject.acr⟩
      | _, _ => return none
    else return none
  | _ => return none

/-! ## The SAML broker -/

def samlProvider (cfg : Config) (realm id : String) : Option SamlProvider :=
  (cfg.samlProviders realm).find? fun p => p.id = id

def SamlProvider.key (p : SamlProvider) (realm : String) (marker : Marker) (id : String) :
    ReplayKey :=
  ⟨realm, p.id, marker, id⟩

/-- `start`: the RelayState and the identifier of the request, which Node-SAML generates and
saves. -/
def start (p : SamlProvider) (realm uid : String) : Route (Option (String × String)) := do
  let relayState ← random
  let requestId ← random
  let _ ← artifact (.putIfAbsent (p.key realm .request requestId) .used p.requestTtlMs)
  let saved ← artifact (.putIfAbsent (p.key realm .state relayState)
    (.pending ⟨realm, p.id, uid, requestId⟩) p.requestTtlMs)
  if saved then return some (relayState, requestId)
  else
    let _ ← artifact (.consume (p.key realm .request requestId))
    return none

/-- A bearer confirmation for this request, within its dates. -/
def Confirmation.isValid (c : Confirmation) (p : SamlProvider) (requestId : String)
    (time : Instant) : Bool :=
  c.bearer && c.recipient = p.assertionConsumerServiceUrl && c.inResponseTo = requestId &&
    match c.notOnOrAfter, c.notBefore with
    | none, _ | some _, some none => false
    | some notOnOrAfter, none => time.ms - p.clockSkewMs < notOnOrAfter
    | some notOnOrAfter, some (some notBefore) =>
      notBefore ≤ time.ms + p.clockSkewMs && time.ms - p.clockSkewMs < notOnOrAfter

/-- `assertionDetails`: the identifier of the assertion, if it confirms the subject. -/
def assertionDetails (profile : SamlProfile) (p : SamlProvider) (requestId : String)
    (time : Instant) : Option String :=
  if profile.confirmations.any fun c => c.isValid p requestId time then profile.assertionId
  else none

/-- A validated response. -/
structure Validation where
  interactionUid : String
  requestId : String
  responseId : String
  assertionId : String
  externalSubject : String
  deriving DecidableEq

/-- The part of `consumePost` that claims the markers. -/
def claimMarkers (p : SamlProvider) (realm relayState responseId assertionId : String) :
    Route (Option ReplayValue) := do
  let response ← artifact (.putIfAbsent (p.key realm .response responseId) .used p.replayTtlMs)
  if response then
    let assertion ← artifact (.putIfAbsent (p.key realm .assertion assertionId) .used p.replayTtlMs)
    if assertion then artifact (.consume (p.key realm .state relayState)) else return none
  else return none

/-- `consumePost`; `none` is the error. -/
def consumePost (cfg : Config) (p : SamlProvider) (realm response relayState : String) :
    Route (Option Validation) := do
  if isToken 32 80 relayState then
    let found ← artifact (.get (p.key realm .state relayState))
    match found, cfg.responseEnvelope response with
    | some (.pending pending), some envelope =>
      if envelope.destination = p.assertionConsumerServiceUrl ∧
          envelope.inResponseTo = pending.requestId then
        let profile ← upstream (.saml realm p.id response)
        match profile with
        | none => return none
        | some profile =>
          if profile.inResponseTo = pending.requestId ∧ profile.issuer = p.entityId then
            let time ← now
            match assertionDetails profile p pending.requestId time with
            | none => return none
            | some assertionId =>
              let consumed ← claimMarkers p realm relayState envelope.id assertionId
              if consumed = some (.pending pending) ∧ profile.nameID ≠ "" then
                return some ⟨pending.interactionUid, pending.requestId, envelope.id, assertionId,
                  profile.nameID⟩
              else return none
          else return none
      else return none
    | _, _ => return none
  else return none

/-- `consume` of the SAML extension. -/
def consumeSaml (cfg : Config) (realm : String) (p : SamlProvider) (response relayState : String) :
    Route (Option FederationResult) := do
  let validation ← consumePost cfg p realm response relayState
  match validation with
  | none => return none
  | some v =>
    return some ⟨v.interactionUid, ⟨p.id, p.entityId, v.externalSubject⟩, p.jitProvisioning,
      ["federated", "saml"], some "urn:authme:loa:federated"⟩

/-! ## The federation routes -/

/-- `amrPattern`. -/
def isAmr (s : String) : Bool :=
  1 ≤ s.toList.length && s.toList.length ≤ 64 &&
    s.toList.all fun c => ('A' ≤ c && c ≤ 'Z') || ('a' ≤ c && c ≤ 'z') ||
      ('0' ≤ c && c ≤ '9') || ['.', '_', '~', ':', '+', '/', '-'].contains c

/-- The assurance level is missing, or it is a short text without control characters. -/
def isAcr (acr : Option String) : Bool :=
  match acr with
  | none => true
  | some s => s ≠ "" && Text.length s ≤ 256 && s.toList.all fun c => 31 < c.toNat && c.toNat ≠ 127

/-- `normalizedResult`: the authentication methods and the assurance level. -/
def normalizedResult (amr : List String) (acr : Option String) : Option (List String × String) :=
  if amr.length ≤ 16 && amr.all isAmr && isAcr acr then
    some (("federated" :: amr).eraseDups, acr.getD "urn:authme:loa:federated")
  else none

/-- `accountResolver`; `none` is the error. -/
def accountResolver (realm : String) (result : FederationResult) : Route (Option User) := do
  let resolved ← resolveFederatedLogin realm result.identity result.allowCreate
  match resolved with
  | none => return none
  | some user =>
    let time ← now
    if user.isLocked time then return none
    else
      account (.recordLoginSuccess realm user.id)
      return some user

def completeCallback (cfg : Config) (realm : String) (extension : Extension) (providerId : String)
    (result : FederationResult) : Route Reply := do
  match normalizedResult result.amr result.acr with
  | none => return .failed
  | some (amr, acr) =>
    let user ← accountResolver realm result
    match user with
    | none => return .failed
    | some user =>
      let handle ← issueState realm (.completion ⟨realm, extension, providerId,
        result.interactionUid, user.id, amr, acr⟩) cfg.completionTtl
      match handle with
      | none => return .failed
      | some handle => return .resolved handle

/-- `POST …/interaction/:uid/federation/:extensionId/:providerId`. -/
def initiate (cfg : Config) (realm uid : String) (extension : Extension) (providerId : String) :
    Route Reply := do
  match extension with
  | .oidc =>
    match oidcProvider cfg realm providerId with
    | none => return .failed
    | some p =>
      let state ← initiateOidc cfg realm uid p
      match state with
      | none => return .failed
      | some state => return .redirected state
  | .saml =>
    match samlProvider cfg realm providerId with
    | none => return .failed
    | some p =>
      let started ← start p realm uid
      match started with
      | none => return .failed
      | some (relayState, _) => return .redirected relayState

/-- `GET …/federation/:extensionId/:providerId/callback`. -/
def oidcCallback (cfg : Config) (realm providerId : String) (query : CallbackQuery) :
    Route Reply := do
  match oidcProvider cfg realm providerId with
  | none => return .failed
  | some p =>
    let result ← consumeOidc cfg realm p query
    match result with
    | none => return .failed
    | some result => completeCallback cfg realm .oidc providerId result

/-- `POST …/federation/:extensionId/:providerId/acs`. -/
def acs (cfg : Config) (realm providerId response relayState : String) : Route Reply := do
  match samlProvider cfg realm providerId with
  | none => return .failed
  | some p =>
    let result ← consumeSaml cfg realm p response relayState
    match result with
    | none => return .failed
    | some result => completeCallback cfg realm .saml providerId result

/-- The provider is configured. -/
def hasProvider (cfg : Config) (realm : String) (extension : Extension) (providerId : String) :
    Bool :=
  match extension with
  | .oidc => (oidcProvider cfg realm providerId).isSome
  | .saml => (samlProvider cfg realm providerId).isSome

/-- `GET …/interaction/:uid/federation/complete`. -/
def complete (cfg : Config) (realm uid handle : String) : Route Reply := do
  let payload ← consumeState realm handle
  match payload with
  | some (.completion c) =>
    match normalizedResult c.amr (some c.acr) with
    | none => return .failed
    | some (amr, acr) =>
      if c.realm = realm ∧ c.interactionUid = uid ∧ hasProvider cfg realm c.extension c.providerId
      then finish realm uid ⟨c.accountId, acr, amr⟩
      else return .failed
  | _ => return .failed

/-! ## The service -/

inductive Request
  | login (realm uid : String) (form : LoginForm)
  | passkeyOptions (realm uid challenge : String)
  | passkey (realm uid : String) (challengeId : Option String) (assertion : Option Assertion)
  | initiate (realm uid : String) (extension : Extension) (providerId : String)
  | callback (realm providerId : String) (query : CallbackQuery)
  | acs (realm providerId response relayState : String)
  | complete (realm uid handle : String)
  | start (realm providerId uid : String)
  | consumePost (realm providerId response relayState : String)
  deriving DecidableEq

def program (cfg : Config) : Request → Route Reply
  | .login realm uid form => login cfg realm uid form
  | .passkeyOptions realm uid challenge => passkeyOptions cfg realm uid challenge
  | .passkey realm uid challengeId assertion => passkeyLogin cfg realm uid challengeId assertion
  | .initiate realm uid extension providerId => initiate cfg realm uid extension providerId
  | .callback realm providerId query => oidcCallback cfg realm providerId query
  | .acs realm providerId response relayState => acs cfg realm providerId response relayState
  | .complete realm uid handle => complete cfg realm uid handle
  | .start realm providerId uid => do
    match samlProvider cfg realm providerId with
    | none => return .failed
    | some p =>
      let started ← start p realm uid
      match started with
      | none => return .failed
      | some (relayState, requestId) => return .started relayState requestId
  | .consumePost realm providerId response relayState => do
    match samlProvider cfg realm providerId with
    | none => return .failed
    | some p =>
      let validation ← consumePost cfg p realm response relayState
      match validation with
      | none => return .failed
      | some v => return .validated v.interactionUid v.requestId v.responseId v.assertionId

/-- The login routes of a configuration. -/
def routes (cfg : Config) : Service operations State Request Reply Choice Change where
  program := program cfg
  answer := answer cfg
  change := change cfg

/-- A configuration with an upstream OpenID provider and a SAML provider, for which a password
is its own hash and a passkey signs the next counter. -/
def someConfig : Config where
  backend := .postgres
  cache := .adapter .postgres
  lowerCase := id
  verifyPassword hash password := hash = password
  dummyPasswordHash := "*"
  needsPasswordRehash _ := false
  decryptSecret ciphertext _ := some ciphertext
  totpStep _ _ _ := none
  recoveryCodeDigest := id
  webauthnChallengeTtl := 300
  verifyAuthentication assertion challenge credential :=
    if assertion.clientDataJSON = challenge then
      some ⟨credential.counter.value + 1, credential.deviceType, credential.backedUp⟩
    else none
  ldapProviders _ := []
  oidcProviders _ := [⟨"upstream", "https://upstream", true, false⟩]
  samlProviders _ := [⟨"partner", "https://auth/acs", "https://partner", true, 300000, 60000, 600000⟩]
  callbackUrl realm _ providerId := realm ++ "/" ++ providerId
  responseEnvelope response := some ⟨response, "https://auth/acs", "request-1"⟩
  completionTtl := 120

end AuthMe.Login

import AuthMe.Service.Pool
import AuthMe.Store.Factor
import AuthMe.Store.WebAuthn

/-!
# What a login reads and writes

The shared state of the login routes and the operations on it, each of which is atomic: the
accounts and passkeys of the identity store, the `FederationState` records of the adapters,
and the replay cache of the SAML brokers (`src/src/federation/saml-replay-cache.js`).

A route waits between two operations. What comes from outside the repository (the LDAP
servers, the upstream identity providers, random values) is a choice, and so is the account
that the federated identity repository finds or creates for an identity. Random values are
never issued twice. A request that ends with an error is a call that stops.
-/

namespace AuthMe.Login

open Service Store

/-! ## Records -/

/-- The two extensions that federate logins in the browser. -/
inductive Extension
  | oidc
  | saml
  deriving DecidableEq

/-- An identity at an upstream provider. -/
structure Identity where
  providerId : String
  issuer : String
  externalSubject : String
  deriving DecidableEq

/-- What `createOidcBroker.initiate` stores under a state. -/
structure OidcTransaction where
  providerId : String
  interactionUid : String
  callbackUrl : String
  nonce : String
  codeVerifier : String
  deriving DecidableEq

/-- What `completeCallback` stores under a completion handle. -/
structure Completion where
  realm : String
  extension : Extension
  providerId : String
  interactionUid : String
  accountId : String
  amr : List String
  acr : String
  deriving DecidableEq

inductive Payload
  | oidc (transaction : OidcTransaction)
  | completion (completion : Completion)
  deriving DecidableEq

def Payload.accountId? : Payload → Option String
  | .oidc _ => none
  | .completion c => some c.accountId

/-- An artifact of the model `FederationState`. -/
structure StateRecord where
  payload : Payload
  securityVersion : Option Nat
  expiresAt : Int
  consumed : Bool
  deriving DecidableEq

def StateRecord.live (r : StateRecord) (now : Instant) : Bool := now.ms < r.expiresAt

/-- The markers of a SAML broker. -/
inductive Marker
  | state
  | request
  | response
  | assertion
  deriving DecidableEq

/-- `saml:${realm}:${providerId}:${marker}:${id}`. -/
structure ReplayKey where
  realm : String
  providerId : String
  marker : Marker
  id : String
  deriving DecidableEq

/-- What `start` stores under a RelayState. -/
structure Pending where
  realm : String
  providerId : String
  interactionUid : String
  requestId : String
  deriving DecidableEq

inductive ReplayValue
  | pending (pending : Pending)
  | used
  deriving DecidableEq

structure ReplayRecord where
  value : ReplayValue
  expiresAt : Int
  consumed : Bool
  deriving DecidableEq

/-- `MemorySamlReplayCache`, or `createAdapterSamlReplayCache` over one of the adapters. -/
inductive CacheKind
  | process
  | adapter (backend : Backend)
  deriving DecidableEq

def ReplayRecord.live (r : ReplayRecord) (now : Instant) : Bool := now.ms < r.expiresAt

abbrev ReplayCache := OrderedMap ReplayKey ReplayRecord

/-! ## The replay cache -/

namespace ReplayCache

def putIfAbsent (kind : CacheKind) (now : Instant) (cache : ReplayCache) (key : ReplayKey)
    (value : ReplayValue) (ttlMs : Int) : Bool × ReplayCache :=
  match cache.get? key with
  | none => (true, cache.set key ⟨value, now.ms + ttlMs, false⟩)
  | some r =>
    if r.live now then (false, cache)
    else
      match kind with
      | .process => (true, cache.set key ⟨value, now.ms + ttlMs, false⟩)
      | .adapter .memory => (true, cache.set key ⟨value, now.ms + ttlMs, r.consumed⟩)
      -- the row stays in the table until it is cleaned up
      | .adapter .postgres => (false, cache)

def find (now : Instant) (cache : ReplayCache) (key : ReplayKey) : Option ReplayValue :=
  match cache.get? key with
  | none => none
  | some r => if r.live now && !r.consumed then some r.value else none

def consume (kind : CacheKind) (now : Instant) (cache : ReplayCache) (key : ReplayKey) :
    Option ReplayValue × ReplayCache :=
  match cache.get? key with
  | none => (none, cache)
  | some r =>
    if r.live now && !r.consumed then
      (some r.value,
        match kind with
        | .process => cache.erase key
        | .adapter _ => cache.set key { r with consumed := true })
    else (none, cache)

end ReplayCache

/-! ## Configuration -/

structure LdapProvider where
  id : String
  url : String
  jitProvisioning : Bool
  deriving DecidableEq

structure OidcProvider where
  id : String
  issuer : String
  jitProvisioning : Bool
  requireIssuerParameter : Bool
  deriving DecidableEq

structure SamlProvider where
  id : String
  assertionConsumerServiceUrl : String
  /-- The entity identifier of the identity provider. -/
  entityId : String
  jitProvisioning : Bool
  requestTtlMs : Int
  clockSkewMs : Int
  replayTtlMs : Int
  deriving DecidableEq

/-- What `parseAssertion` accepts. -/
structure Assertion where
  id : String
  rawId : String
  clientDataJSON : String
  authenticatorData : String
  signature : String
  userHandle : String
  deriving DecidableEq

/-- What `responseEnvelope` reads from a SAML response. -/
structure Envelope where
  id : String
  destination : String
  inResponseTo : String
  deriving DecidableEq

/-- The configuration of the routes, and the functions that have no effect. `decryptSecret`
takes the context of the secret and fails by throwing. -/
structure Config where
  backend : Backend
  cache : CacheKind
  lowerCase : String → String
  verifyPassword : String → String → Bool
  dummyPasswordHash : String
  needsPasswordRehash : String → Bool
  decryptSecret : String → String → Option String
  totpStep : String → String → Instant → Option Int
  recoveryCodeDigest : String → String
  webauthnChallengeTtl : Int
  verifyAuthentication : Assertion → String → Credential → Option Verification
  ldapProviders : String → List LdapProvider
  oidcProviders : String → List OidcProvider
  samlProviders : String → List SamlProvider
  callbackUrl : String → Extension → String → String
  responseEnvelope : String → Option Envelope
  completionTtl : Int

/-! ## The state -/

/-- The users, and the identifiers of those that were deleted. -/
structure Accounts where
  users : Users
  deleted : List UserKey

structure Passkeys where
  credentials : OrderedMap (String × String) Credential
  challenges : OrderedMap (String × String) Challenge

structure Artifacts where
  states : OrderedMap (String × String) StateRecord
  replay : ReplayCache

structure State where
  clock : Instant
  accounts : Accounts
  passkeys : Passkeys
  artifacts : Artifacts
  /-- The random values that have been returned. -/
  issued : List String

/-! ## Operations -/

inductive ResolutionStatus
  | resolved
  | disabled
  | created
  | linkRequired
  | notFound
  deriving DecidableEq

/-- The answer of `resolve` of a federated identity repository. -/
structure Resolution where
  status : ResolutionStatus
  user : Option User
  deriving DecidableEq

inductive AccountOp
  | findUserByLogin (realm login : String)
  | findUserById (realm id : String)
  | resolve (realm : String) (identity : Identity) (allowCreate : Bool)
  | consumeTotpStep (realm id : String) (step : Int)
  | consumeRecoveryCode (realm id digest : String)
  | rehashPasswordIfCurrent (realm id expectedHash : String)
  | recordLoginFailure (realm id : String)
  | recordLoginSuccess (realm id : String)
  | securityVersionFor (realm id : String)
  deriving DecidableEq

@[reducible] def AccountOp.Res : AccountOp → Type
  | .findUserByLogin .. | .findUserById .. => Option User
  | .resolve .. => Resolution
  | .consumeTotpStep .. | .consumeRecoveryCode .. | .rehashPasswordIfCurrent .. => Bool
  | .recordLoginFailure .. | .recordLoginSuccess .. => Unit
  | .securityVersionFor .. => Option Nat

inductive PasskeyOp
  | consumeChallenge (query : ChallengeQuery)
  | findCredential (realm id : String)
  | updateCounter (realm id : String) (expectedCounter : Nat) (verification : Verification)
  deriving DecidableEq

@[reducible] def PasskeyOp.Res : PasskeyOp → Type
  | .consumeChallenge _ => Option Challenge
  | .findCredential .. => Option Credential
  | .updateCounter .. => Bool

inductive ArtifactOp
  | saveState (realm id : String) (payload : Payload) (securityVersion : Option Nat)
      (expiresIn : Int)
  | findState (realm id : String)
  | consumeState (realm id : String)
  | putIfAbsent (key : ReplayKey) (value : ReplayValue) (ttlMs : Int)
  | get (key : ReplayKey)
  | consume (key : ReplayKey)
  deriving DecidableEq

@[reducible] def ArtifactOp.Res : ArtifactOp → Type
  | .saveState .. => Unit
  | .findState .. => Option StateRecord
  | .consumeState .. | .putIfAbsent .. => Bool
  | .get _ | .consume _ => Option ReplayValue

/-- A subject that an upstream OpenID provider has vouched for. -/
structure OidcSubject where
  externalSubject : String
  amr : List String
  acr : Option String
  deriving DecidableEq

/-- A `SubjectConfirmation` with its dates in milliseconds; `none` is a date that does not
parse. -/
structure Confirmation where
  bearer : Bool
  recipient : String
  inResponseTo : String
  notBefore : Option (Option Int)
  notOnOrAfter : Option Int
  deriving DecidableEq

/-- The profile that `validatePostResponseAsync` of Node-SAML returns. -/
structure SamlProfile where
  issuer : String
  nameID : String
  inResponseTo : String
  assertionId : Option String
  confirmations : List Confirmation
  deriving DecidableEq

/-- What is asked of the outside: a bind at an LDAP server, the exchange of a code and the
validation of the ID token, the validation of a SAML response. -/
inductive UpstreamOp
  | ldap (realm providerId login secret : String)
  | oidc (realm providerId code : String) (transaction : OidcTransaction)
  | saml (realm providerId response : String)
  deriving DecidableEq

@[reducible] def UpstreamOp.Res : UpstreamOp → Type
  | .ldap .. => Option String
  | .oidc .. => Option OidcSubject
  | .saml .. => Option SamlProfile

/-- The login that `interactionFinished` reports. -/
structure LoginResult where
  accountId : String
  acr : String
  amr : List String
  deriving DecidableEq

inductive Op
  | now
  | random
  | createChallenge (input : ChallengeInput)
  | account (op : AccountOp)
  | passkey (op : PasskeyOp)
  | artifact (op : ArtifactOp)
  | upstream (op : UpstreamOp)
  | interactionFinished (realm uid : String) (login : LoginResult)
  deriving DecidableEq

@[reducible] def Op.Res : Op → Type
  | .now => Instant
  | .random | .createChallenge _ => String
  | .account op => op.Res
  | .passkey op => op.Res
  | .artifact op => op.Res
  | .upstream op => op.Res
  | .interactionFinished .. => Unit

abbrev operations : Interface := ⟨Op, Op.Res⟩

/-! ## Answers -/

/-- What the state does not decide. -/
inductive Choice
  | none
  | text (value : String)
  | linked (id : String)
  | created (user : User)
  | collision
  | oidc (subject : OidcSubject)
  | saml (profile : SamlProfile)
  deriving DecidableEq

/-- The login name is the user's name or mail address. -/
def matchesLogin (cfg : Config) (login : String) (u : User) : Bool :=
  let name := cfg.lowerCase (Text.trim login)
  cfg.lowerCase u.username = name ||
    match cfg.backend with
    | .memory => u.email = name
    | .postgres => cfg.lowerCase u.email = name

namespace Accounts

/-- A new user: enabled, not locked, without a second factor, under a new identifier. -/
def admits (a : Accounts) (realm : String) (u : User) : Bool :=
  u.realm = realm && (a.users.get? (realm, u.id)).isNone && !a.deleted.contains (realm, u.id) &&
    u.lockedUntil.isNone && !u.totpConfirmed

def modify (a : Accounts) (realm id : String) (f : User → User) : Accounts :=
  { a with users := a.users.modify (realm, id) f }

/-- Writes the row of a user if `f` accepts it. -/
def attempt (a : Accounts) (realm id : String) (f : User → Option User) : Bool × Accounts :=
  match (a.users.get? (realm, id)).bind f with
  | none => (false, a)
  | some u => (true, { a with users := a.users.set (realm, id) u })

/-- The user of a link or a new user, and neither when the identity has no account. -/
def resolve (a : Accounts) (realm : String) (allowCreate : Bool) :
    Choice → Option (Resolution × Accounts)
  | .linked id =>
    match a.users.get? (realm, id) with
    | none => none
    | some u => some (⟨if u.enabled then .resolved else .disabled, some u⟩, a)
  | .created u =>
    if allowCreate && a.admits realm u && u.enabled then
      some (⟨.created, some u⟩, { a with users := a.users.set (realm, u.id) u })
    else none
  | .collision => some (⟨.linkRequired, none⟩, a)
  | _ => some (⟨.notFound, none⟩, a)

def answer (cfg : Config) (now : Instant) (choice : Choice) (a : Accounts) :
    (op : AccountOp) → Option (op.Res × Accounts)
  | .findUserByLogin realm login =>
    some ((a.users.findFirst? fun key u => key.1 = realm && matchesLogin cfg login u).map
      Prod.snd, a)
  | .findUserById realm id => some (a.users.get? (realm, id), a)
  | .resolve realm _ allowCreate => a.resolve realm allowCreate choice
  | .consumeTotpStep realm id step => some (a.attempt realm id (·.acceptTotpStep step))
  | .consumeRecoveryCode realm id digest =>
    some (a.attempt realm id (·.consumeRecoveryCode digest))
  | .rehashPasswordIfCurrent realm id expectedHash =>
    match choice with
    -- the salt of the new hash is random
    | .text passwordHash =>
      some (a.attempt realm id (·.rehashPasswordIfCurrent expectedHash passwordHash))
    | _ => none
  | .recordLoginFailure realm id => some ((), a.modify realm id (·.recordLoginFailure now))
  | .recordLoginSuccess realm id => some ((), a.modify realm id User.recordLoginSuccess)
  | .securityVersionFor realm id =>
    some ((a.users.get? (realm, id)).bind fun u =>
      if u.enabled then some u.securityVersion else none, a)

end Accounts

/-- PostgreSQL casts the identifier of a challenge to `uuid`. -/
def challengeId (cfg : Config) (id : String) : String :=
  match cfg.backend with
  | .memory => id
  | .postgres => String.ofList (id.toList.map asciiLower)

namespace Passkeys

def answer (cfg : Config) (now : Instant) (p : Passkeys) :
    (op : PasskeyOp) → op.Res × Passkeys
  | .consumeChallenge q =>
    let key := (q.realm, challengeId cfg q.id)
    match p.challenges.get? key with
    | none => (none, p)
    | some c =>
      if c.answers q now then (some c, { p with challenges := p.challenges.erase key })
      else (none, p)
  | .findCredential realm id => (p.credentials.get? (realm, id), p)
  | .updateCounter realm id expectedCounter verification =>
    match (p.credentials.get? (realm, id)).bind
        (·.updateCounter expectedCounter verification) with
    | none => (false, p)
    | some c => (true, { p with credentials := p.credentials.set (realm, id) c })

end Passkeys

namespace Artifacts

def answer (cfg : Config) (now : Instant) (a : Artifacts) :
    (op : ArtifactOp) → op.Res × Artifacts
  | .saveState realm id payload securityVersion expiresIn =>
    let record : StateRecord := ⟨payload, securityVersion, now.ms + expiresIn * 1000, false⟩
    ((), { a with states := a.states.set (realm, id) record })
  | .findState realm id => ((a.states.get? (realm, id)).filter fun r => r.live now, a)
  | .consumeState realm id =>
    match a.states.get? (realm, id) with
    | none => (false, a)
    | some r =>
      if r.live now && !r.consumed then
        (true, { a with states := a.states.set (realm, id) { r with consumed := true } })
      else (false, a)
  | .putIfAbsent key value ttlMs =>
    let r := a.replay.putIfAbsent cfg.cache now key value ttlMs
    (r.1, { a with replay := r.2 })
  | .get key => (a.replay.find now key, a)
  | .consume key =>
    let r := a.replay.consume cfg.cache now key
    (r.1, { a with replay := r.2 })

end Artifacts

def answerUpstream (choice : Choice) : (op : UpstreamOp) → Option op.Res
  | .ldap .. =>
    match choice with
    | .text subject => if subject = "" then none else some (some subject)
    | _ => some none
  | .oidc .. =>
    match choice with
    | .oidc subject => some (some subject)
    | _ => some none
  | .saml .. =>
    match choice with
    | .saml profile => some (some profile)
    | _ => some none

/-- A random value, which has not been issued before. -/
def State.draw (s : State) (choice : Choice) : Option (String × State) :=
  match choice with
  | .text value =>
    if value ∈ s.issued then none else some (value, { s with issued := value :: s.issued })
  | _ => none

/-- The store generates the identifier of a challenge. -/
def State.addChallenge (s : State) (input : ChallengeInput) (id : String) : State :=
  { s with passkeys.challenges := s.passkeys.challenges.set (input.realm, id) ⟨input, id⟩ }

def answer (cfg : Config) (s : State) (choice : Choice) : (op : Op) → Option (op.Res × State)
  | .now => some (s.clock, s)
  | .random => s.draw choice
  | .createChallenge input =>
    (s.draw choice).map fun r => (r.1, r.2.addChallenge input r.1)
  | .account op =>
    (s.accounts.answer cfg s.clock choice op).map fun r => (r.1, { s with accounts := r.2 })
  | .passkey op =>
    let r := s.passkeys.answer cfg s.clock op
    some (r.1, { s with passkeys := r.2 })
  | .artifact op =>
    let r := s.artifacts.answer cfg s.clock op
    some (r.1, { s with artifacts := r.2 })
  | .upstream op => (answerUpstream choice op).map fun r => (r, s)
  | .interactionFinished .. => some ((), s)

/-- What an operation answers, and the store after it. -/
inductive Answer (cfg : Config) (s : State) : (op : Op) → op.Res → State → Prop
  | now : Answer cfg s .now s.clock s
  | random {value : String} (hfresh : value ∉ s.issued) :
      Answer cfg s .random value { s with issued := value :: s.issued }
  | createChallenge {input : ChallengeInput} {id : String} (hfresh : id ∉ s.issued) :
      Answer cfg s (.createChallenge input) id
        ({ s with issued := id :: s.issued }.addChallenge input id)
  | account {choice : Choice} {op : AccountOp} {res : op.Res} {accounts : Accounts}
      (h : s.accounts.answer cfg s.clock choice op = some (res, accounts)) :
      Answer cfg s (.account op) res { s with accounts := accounts }
  | passkey {op : PasskeyOp} {res : op.Res} {passkeys : Passkeys}
      (h : s.passkeys.answer cfg s.clock op = (res, passkeys)) :
      Answer cfg s (.passkey op) res { s with passkeys := passkeys }
  | artifact {op : ArtifactOp} {res : op.Res} {artifacts : Artifacts}
      (h : s.artifacts.answer cfg s.clock op = (res, artifacts)) :
      Answer cfg s (.artifact op) res { s with artifacts := artifacts }
  | upstream {op : UpstreamOp} {res : op.Res} : Answer cfg s (.upstream op) res s
  | interactionFinished {realm uid : String} {login : LoginResult} :
      Answer cfg s (.interactionFinished realm uid login) () s

theorem draw_eq_some {s : State} {choice : Choice} {r : String × State}
    (h : s.draw choice = some r) :
    r.1 ∉ s.issued ∧ r.2 = { s with issued := r.1 :: s.issued } := by
  unfold State.draw at h
  split at h
  · split at h
    · cases h
    · rename_i hfresh
      cases h
      exact ⟨hfresh, rfl⟩
  · cases h

theorem answer_cases {cfg : Config} {s s' : State} {choice : Choice} {op : Op} {res : op.Res}
    (h : answer cfg s choice op = some (res, s')) : Answer cfg s op res s' := by
  cases op with
  | now => cases h; exact .now
  | random =>
    obtain ⟨hfresh, hs'⟩ := draw_eq_some h
    dsimp only at hfresh hs'
    rw [hs']
    exact .random hfresh
  | createChallenge input =>
    obtain ⟨r, hr, hres⟩ := Option.map_eq_some_iff.mp h
    cases hres
    obtain ⟨hfresh, hs'⟩ := draw_eq_some hr
    rw [hs']
    exact .createChallenge hfresh
  | account op =>
    obtain ⟨r, hr, hres⟩ := Option.map_eq_some_iff.mp h
    cases hres
    exact .account hr
  | passkey op => cases h; exact .passkey rfl
  | artifact op => cases h; exact .artifact rfl
  | upstream op =>
    obtain ⟨r, -, hres⟩ := Option.map_eq_some_iff.mp h
    cases hres
    exact .upstream
  | interactionFinished realm uid login => cases h; exact .interactionFinished

/-! ## What else happens -/

/-- The columns of a user that `updateUser` and the SCIM operations write. -/
structure Profile where
  username : String
  email : String
  emailVerified : Bool
  name : String
  givenName : String
  familyName : String
  enabled : Bool
  passwordHash : String
  roles : List String
  groups : List String
  deriving DecidableEq

def updateProfile (u : User) (p : Profile) : User :=
  { u with
    username := p.username
    email := p.email
    emailVerified := p.emailVerified
    name := p.name
    givenName := p.givenName
    familyName := p.familyName
    enabled := p.enabled
    passwordHash := p.passwordHash
    roles := p.roles
    groups := p.groups }

inductive Change
  | elapse (clock : Instant)
  | createUser (user : User)
  | updateUser (realm id : String) (profile : Profile)
  | unlockUser (realm id : String)
  | bumpSecurityVersion (realm id : String)
  | factor (realm id : String) (call : Factor.Call)
  | deleteUser (realm id : String)
  | revokeAccount (realm id : String)
  | createChallenge (input : ChallengeInput) (id : String)
  | createCredential (credential : Credential)
  | deleteCredential (realm id : String)
  | removeRequest (realm providerId requestId : String)
  | cleanupExpired
  deriving DecidableEq

def Passkeys.deleteUser (p : Passkeys) (realm id : String) : Passkeys where
  credentials := p.credentials.filter fun _ c => !(c.realm = realm && c.userId = id)
  challenges := p.challenges.filter fun _ c => !(c.realm = realm && c.userId = some id)

def change (cfg : Config) (s : State) : Change → Option State
  | .elapse clock => if s.clock.ms ≤ clock.ms then some { s with clock := clock } else none
  | .createUser u =>
    if s.accounts.admits u.realm u then
      some { s with accounts.users := s.accounts.users.set (u.realm, u.id) u }
    else none
  | .updateUser realm id profile =>
    some { s with accounts := s.accounts.modify realm id (updateProfile · profile) }
  | .unlockUser realm id => some { s with accounts := s.accounts.modify realm id User.unlock }
  | .bumpSecurityVersion realm id =>
    some { s with accounts := s.accounts.modify realm id User.bumpSecurityVersion }
  | .factor realm id call =>
    let r := s.accounts.attempt realm id fun u => call.apply cfg.backend s.clock u
    some { s with accounts := r.2 }
  | .deleteUser realm id =>
    some { s with
      accounts := ⟨s.accounts.users.erase (realm, id), (realm, id) :: s.accounts.deleted⟩
      passkeys := s.passkeys.deleteUser realm id }
  | .revokeAccount realm id =>
    let kept (key : String × String) (r : StateRecord) : Bool :=
      !(key.1 = realm && r.payload.accountId? = some id)
    some { s with artifacts.states := s.artifacts.states.filter kept }
  | .createChallenge input id => (s.draw (.text id)).map fun r => r.2.addChallenge input id
  | .createCredential c =>
    match s.accounts.users.get? (c.realm, c.userId), s.passkeys.credentials.get? (c.realm, c.id) with
    | some _, none =>
      some { s with passkeys.credentials := s.passkeys.credentials.set (c.realm, c.id) c }
    | _, _ => none
  | .deleteCredential realm id =>
    some { s with passkeys.credentials := s.passkeys.credentials.erase (realm, id) }
  -- Node-SAML takes the identifier of a request out of the cache when it has validated a response
  | .removeRequest realm providerId requestId =>
    let key : ReplayKey := ⟨realm, providerId, .request, requestId⟩
    some { s with artifacts.replay := (s.artifacts.replay.consume cfg.cache s.clock key).2 }
  | .cleanupExpired =>
    some { s with
      passkeys.challenges := s.passkeys.challenges.filter fun _ c => s.clock.ms < c.expiresAt
      artifacts :=
        ⟨s.artifacts.states.filter fun _ r => r.live s.clock,
          s.artifacts.replay.filter fun _ r => r.live s.clock⟩ }

end AuthMe.Login

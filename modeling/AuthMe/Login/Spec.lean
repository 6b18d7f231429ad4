import AuthMe.Login.Routes

/-!
# What the login routes do

`Performs` says what a route has done when it performs an operation, whatever the answers are
and whatever happens between two operations: `routes_spec`. A login is recorded as a success
or finished only after its checks, and what each check has read is in the log of the call.

The programs that several routes share have a specification of their own: they extend the log
by quiet entries, which change nothing that a login depends on, and what they return can be read
off the log (`consumeState_obeys`, `resolveFederatedLogin_obeys` and so on).
-/

namespace AuthMe.Login

open Service Store

abbrev Log := List (Entry operations State)

/-! ## Facts that a log shows -/

/-- The login has read the user, and the first factor is that user's. -/
inductive FirstFactorOk (cfg : Config) (realm : String) (form : LoginForm) (log : Log)
    (user : User) : String → Prop
  | password
      (hread : Answered log (.account (.findUserByLogin realm form.login)) (some user))
      (hverify : cfg.verifyPassword user.passwordHash form.password = true) :
      FirstFactorOk cfg realm form log user "pwd"
  | ldap {provider : LdapProvider} {subject : String} {status : ResolutionStatus}
      (hprovider : provider ∈ cfg.ldapProviders realm)
      (hbind : Answered log
        (.upstream (.ldap realm provider.id (Text.trim form.login) form.password)) (some subject))
      (hresolve : Answered log (.account (.resolve realm ⟨provider.id, provider.url, subject⟩
        provider.jitProvisioning)) ⟨status, some user⟩)
      (hstatus : status = .resolved ∨ status = .created) :
      FirstFactorOk cfg realm form log user "ldap"

/-- The user was enabled in the record that was read, and not locked. -/
structure Usable (log : Log) (user : User) : Prop where
  enabled : user.enabled = true
  unlocked : ∃ time, Answered log .now time ∧ user.isLocked time = false

structure Admitted (cfg : Config) (realm : String) (form : LoginForm) (log : Log) (user : User)
    (method : String) : Prop where
  factor : FirstFactorOk cfg realm form log user method
  usable : Usable log user

/-- The second factor, and whether it was a recovery code. -/
inductive SecondFactorOk (realm : String) (log : Log) (user : User) : Bool → Prop
  | none (h : user.totpConfirmed = false) : SecondFactorOk realm log user false
  | totp {step : Int} (h : user.totpConfirmed = true)
      (hstep : Answered log (.account (.consumeTotpStep realm user.id step)) true) :
      SecondFactorOk realm log user false
  | recovery {digest : String} (h : user.totpConfirmed = true)
      (hcode : Answered log (.account (.consumeRecoveryCode realm user.id digest)) true) :
      SecondFactorOk realm log user true

/-- The passkey of the user has signed the challenge. -/
structure Verified (cfg : Config) (realm uid challengeId : String) (assertion : Assertion)
    (log : Log) (challenge : Challenge) (credential : Credential) (user : User)
    (verification : Verification) : Prop where
  consumed : Answered log
    (.passkey (.consumeChallenge ⟨realm, challengeId, .authentication, none, some uid⟩))
    (some challenge)
  found : Answered log (.passkey (.findCredential realm assertion.id)) (some credential)
  read : Answered log (.account (.findUserById realm credential.userId)) (some user)
  usable : Usable log user
  verified : cfg.verifyAuthentication assertion challenge.challenge credential = some verification

structure PasskeyOk (cfg : Config) (realm uid challengeId : String) (assertion : Assertion)
    (log : Log) (user : User) : Prop where
  verified : ∃ challenge credential verification,
    Verified cfg realm uid challengeId assertion log challenge credential user verification ∧
    Answered log (.passkey (.updateCounter realm credential.id credential.counter.value
      verification)) true

/-- The record is not bound to an account, or the version of the account was current. -/
def Current (realm : String) (log : Log) (record : StateRecord) : Prop :=
  match record.securityVersion with
  | none => True
  | some version => ∃ accountId, record.payload.accountId? = some accountId ∧
    Answered log (.account (.securityVersionFor realm accountId)) (some version)

/-- The state has been consumed, with this payload. -/
structure Consumed (realm state : String) (log : Log) (payload : Payload) : Prop where
  found : ∃ record, record.payload = payload ∧ Current realm log record ∧
    Answered log (.artifact (.findState realm state)) (some record)
  consumed : Answered log (.artifact (.consumeState realm state)) true

/-- The response has been validated for the request that belongs to the RelayState. -/
structure Validated (cfg : Config) (p : SamlProvider) (realm response relayState : String)
    (log : Log) (v : Validation) (pending : Pending) (profile : SamlProfile) : Prop where
  read : Answered log (.artifact (.get (p.key realm .state relayState))) (some (.pending pending))
  enveloped : ∃ envelope, cfg.responseEnvelope response = some envelope ∧
    envelope.id = v.responseId ∧ envelope.inResponseTo = pending.requestId ∧
    envelope.destination = p.assertionConsumerServiceUrl
  validated : Answered log (.upstream (.saml realm p.id response)) (some profile)
  bound : profile.inResponseTo = pending.requestId ∧ profile.issuer = p.entityId
  details : ∃ time, Answered log .now time ∧
    assertionDetails profile p pending.requestId time = some v.assertionId
  claimedResponse : Answered log
    (.artifact (.putIfAbsent (p.key realm .response v.responseId) .used p.replayTtlMs)) true
  claimedAssertion : Answered log
    (.artifact (.putIfAbsent (p.key realm .assertion v.assertionId) .used p.replayTtlMs)) true
  consumed : Answered log (.artifact (.consume (p.key realm .state relayState)))
    (some (.pending pending))
  result : v.interactionUid = pending.interactionUid ∧ v.requestId = pending.requestId ∧
    v.externalSubject = profile.nameID

/-- The provider has vouched for the identity, in an answer to the state or RelayState. -/
inductive Upstream (cfg : Config) (request : Request) (log : Log) (realm providerId : String) :
    Extension → FederationResult → Prop
  | oidc {query : CallbackQuery} {p : OidcProvider} {transaction : OidcTransaction}
      {code : String} {subject : OidcSubject} (hrequest : request = .callback realm providerId query)
      (hp : oidcProvider cfg realm providerId = some p)
      (hconsumed : Consumed realm query.state log (.oidc transaction))
      (hprovider : transaction.providerId = p.id)
      (hvalid : Answered log (.upstream (.oidc realm p.id code transaction)) (some subject)) :
      Upstream cfg request log realm providerId .oidc ⟨transaction.interactionUid,
        ⟨p.id, p.issuer, subject.externalSubject⟩, p.jitProvisioning, subject.amr, subject.acr⟩
  | saml {response relayState : String} {p : SamlProvider} {v : Validation} {pending : Pending}
      {profile : SamlProfile} (hrequest : request = .acs realm providerId response relayState)
      (hp : samlProvider cfg realm providerId = some p)
      (hvalid : Validated cfg p realm response relayState log v pending profile) :
      Upstream cfg request log realm providerId .saml ⟨v.interactionUid,
        ⟨p.id, p.entityId, v.externalSubject⟩, p.jitProvisioning, ["federated", "saml"],
        some "urn:authme:loa:federated"⟩

/-- The account of the identity, which is enabled and not locked. -/
structure Resolves (realm : String) (log : Log) (result : FederationResult) (user : User) :
    Prop where
  resolved : ∃ status, (status = ResolutionStatus.resolved ∨ status = .created) ∧
    Answered log (.account (.resolve realm result.identity result.allowCreate))
      ⟨status, some user⟩
  usable : Usable log user

/-- The login is recorded as a success. -/
inductive Succeeds (cfg : Config) (request : Request) (log : Log) (realm : String) (user : User) :
    Prop
  | login {uid : String} {form : LoginForm} {method : String} {recoveryUsed : Bool}
      (hrequest : request = .login realm uid form)
      (hadmitted : Admitted cfg realm form log user method)
      (hsecond : SecondFactorOk realm log user recoveryUsed)
  | passkey {uid challengeId : String} {assertion : Assertion}
      (hrequest : request = .passkey realm uid (some challengeId) (some assertion))
      (hok : PasskeyOk cfg realm uid challengeId assertion log user)
  | federated {extension : Extension} {providerId : String} {result : FederationResult}
      (hupstream : Upstream cfg request log realm providerId extension result)
      (hresolves : Resolves realm log result user)

/-- The login is finished. -/
inductive Finishes (cfg : Config) (request : Request) (log : Log) (realm uid : String) :
    LoginResult → Prop
  | login {form : LoginForm} {user : User} {method : String} {recoveryUsed : Bool}
      (hrequest : request = .login realm uid form)
      (hadmitted : Admitted cfg realm form log user method)
      (hsecond : SecondFactorOk realm log user recoveryUsed) :
      Finishes cfg request log realm uid (passwordResult user method recoveryUsed)
  | passkey {challengeId : String} {assertion : Assertion} {user : User}
      (hrequest : request = .passkey realm uid (some challengeId) (some assertion))
      (hok : PasskeyOk cfg realm uid challengeId assertion log user) :
      Finishes cfg request log realm uid ⟨user.id, "urn:authme:loa:2", ["passkey"]⟩
  | complete {handle : String} {c : Completion} {amr : List String} {acr : String}
      (hrequest : request = .complete realm uid handle)
      (hconsumed : Consumed realm handle log (.completion c))
      (hbound : c.realm = realm ∧ c.interactionUid = uid)
      (hprovider : hasProvider cfg realm c.extension c.providerId = true)
      (hnormal : normalizedResult c.amr (some c.acr) = some (amr, acr)) :
      Finishes cfg request log realm uid ⟨c.accountId, acr, amr⟩

/-- A state or a completion handle is saved. -/
inductive Saves (cfg : Config) (request : Request) (log : Log) (realm : String) :
    Payload → Option Nat → Prop
  | initiate {uid providerId nonce codeVerifier : String} {p : OidcProvider}
      (hrequest : request = .initiate realm uid .oidc providerId)
      (hp : oidcProvider cfg realm providerId = some p) :
      Saves cfg request log realm
        (.oidc ⟨p.id, uid, cfg.callbackUrl realm .oidc p.id, nonce, codeVerifier⟩) none
  | completion {extension : Extension} {providerId : String} {result : FederationResult}
      {user : User} {amr : List String} {acr : String} {version : Nat}
      (hupstream : Upstream cfg request log realm providerId extension result)
      (hresolves : Resolves realm log result user)
      (hversion : Answered log (.account (.securityVersionFor realm user.id)) (some version))
      (hnormal : normalizedResult result.amr result.acr = some (amr, acr)) :
      Saves cfg request log realm (.completion ⟨realm, extension, providerId,
        result.interactionUid, user.id, amr, acr⟩) (some version)

/-- A SAML request is started: the call serves `start` of the broker of the key. -/
inductive Starts (request : Request) (log : Log) (key : ReplayKey) : ReplayValue → Prop
  | start {uid requestId : String}
      (hrequest : request = .start key.realm key.providerId uid ∨
        request = .initiate key.realm uid .saml key.providerId)
      (hid : Answered log .random requestId) :
      Starts request log key (.pending ⟨key.realm, key.providerId, uid, requestId⟩)

/-! ## What is asked of an operation -/

def Op.isFailure : Op → Bool
  | .account (.recordLoginFailure ..) => true
  | _ => false

def Op.isSave : Op → Bool
  | .artifact (.saveState ..) => true
  | .artifact (.putIfAbsent key ..) => key.marker = .state
  | _ => false

def Op.isUpdate : Op → Bool
  | .passkey (.updateCounter ..) => true
  | _ => false

/-- An upstream provider validates what was sent to a callback. -/
def Op.isValidation : Op → Bool
  | .upstream (.oidc ..) | .upstream (.saml ..) => true
  | _ => false

/-- No operation of this kind has been performed. -/
def Free (kind : Op → Bool) (log : Log) : Prop := ∀ x ∈ log, kind x.op = false

theorem free_nil (kind : Op → Bool) : Free kind [] := by
  intro x hx
  cases hx

theorem Free.cons {kind : Op → Bool} {log : Log} {x : Entry operations State} (h : Free kind log)
    (hx : kind x.op = false) : Free kind (x :: log) := List.forall_mem_cons.mpr ⟨hx, h⟩

/-- When a call performs an operation. -/
def Performs (cfg : Config) (request : Request) (log : Log) : Op → Prop
  | .account (.consumeTotpStep realm id _) | .account (.consumeRecoveryCode realm id _) =>
    ∃ uid form user method, request = .login realm uid form ∧ user.id = id ∧
      user.totpConfirmed = true ∧ Admitted cfg realm form log user method
  | .account (.securityVersionFor _ _) => ∀ realm uid handle, request = .complete realm uid handle →
    ∃ record, Answered log (.artifact (.findState realm handle)) (some record)
  | .account (.recordLoginFailure realm id) => ∃ uid form user, request = .login realm uid form ∧
    user.id = id ∧
      ((∃ method, FirstFactorOk cfg realm form log user method) ∨
        Answered log (.account (.findUserByLogin realm form.login)) (some user)) ∧
      ∃ time, Answered log .now time ∧ user.isLocked time = false
  | .account (.recordLoginSuccess realm id) => Free Op.isFailure log ∧ ∃ user, user.id = id ∧
    Succeeds cfg request log realm user
  | .interactionFinished realm uid login => Free Op.isFailure log ∧
    Finishes cfg request log realm uid login
  | .createChallenge input => ∃ uid value, request = .passkeyOptions input.realm uid value ∧
    input.purpose = .authentication ∧ input.userId = none ∧ input.interactionUid = some uid
  | .passkey (.consumeChallenge q) => log = [] ∧ ∃ realm uid id assertion,
    request = .passkey realm uid (some id) assertion ∧
    q = ⟨realm, id, .authentication, none, some uid⟩
  | .passkey (.updateCounter realm id expected verification) => Free Op.isUpdate log ∧
    ∃ uid challengeId assertion challenge credential user,
      request = .passkey realm uid (some challengeId) (some assertion) ∧
      Verified cfg realm uid challengeId assertion log challenge credential user verification ∧
      id = credential.id ∧ expected = credential.counter.value
  | .artifact (.findState _ _) => log = []
  | .artifact (.saveState realm id payload version _) => Free Op.isSave log ∧
    Answered log .random id ∧ Saves cfg request log realm payload version
  | .artifact (.putIfAbsent key value _) => key.marker = .state →
    Free Op.isSave log ∧ Answered log .random key.id ∧ Starts request log key value
  | .artifact (.consume key) => key.marker = .request ∨ key.marker = .state
  | .upstream (.oidc ..) | .upstream (.saml ..) => Free Op.isValidation log
  | _ => True

/-- Operations that neither change what a login depends on nor finish it. -/
def Op.quiet : Op → Bool
  | .account (.consumeTotpStep ..) | .account (.consumeRecoveryCode ..)
  | .account (.recordLoginFailure ..) | .account (.recordLoginSuccess ..)
  | .createChallenge _ | .passkey (.consumeChallenge _) | .passkey (.updateCounter ..)
  | .artifact (.saveState ..) | .interactionFinished .. => false
  | .artifact (.putIfAbsent key ..) => key.marker ≠ .state
  | .artifact (.consume key) => key.marker = .request || key.marker = .state
  | _ => true

theorem quiet_isFailure (op : Op) (h : op.quiet = true) : op.isFailure = false := by
  cases op with
  | account op => cases op <;> first | rfl | cases h
  | _ => rfl

theorem quiet_isSave (op : Op) (h : op.quiet = true) : op.isSave = false := by
  cases op with
  | artifact op =>
    cases op with
    | saveState => cases h
    | putIfAbsent key => simpa [Op.quiet, Op.isSave] using h
    | _ => rfl
  | _ => rfl

/-- The log has grown by quiet entries. -/
def Quietly (log log' : Log) : Prop := ∃ l, log' = l ++ log ∧ ∀ x ∈ l, x.op.quiet = true

namespace Quietly

variable {log log' log'' : Log}

theorem refl (log : Log) : Quietly log log := ⟨[], rfl, by simp⟩

theorem cons {x : Entry operations State} (h : x.op.quiet = true) : Quietly log (x :: log) :=
  ⟨[x], rfl, by simpa using h⟩

theorem trans (h : Quietly log log') (h' : Quietly log' log'') : Quietly log log'' := by
  obtain ⟨l, rfl, hl⟩ := h
  obtain ⟨l', rfl, hl'⟩ := h'
  refine ⟨l' ++ l, (List.append_assoc ..).symm, fun x hx => ?_⟩
  rcases List.mem_append.mp hx with hx | hx
  · exact hl' x hx
  · exact hl x hx

theorem subset (h : Quietly log log') : log ⊆ log' := by
  obtain ⟨l, rfl, -⟩ := h
  exact List.subset_append_right _ _

theorem free (h : Quietly log log') {kind : Op → Bool} (hfree : Free kind log)
    (hkind : ∀ op : Op, op.quiet = true → kind op = false) : Free kind log' := by
  obtain ⟨l, rfl, hl⟩ := h
  intro x hx
  rcases List.mem_append.mp hx with hx | hx
  · exact hkind _ (hl x hx)
  · exact hfree x hx

end Quietly

/-! ## Facts stay -/

section Mono

variable {cfg : Config} {realm : String} {log log' : Log}

theorem FirstFactorOk.mono {form : LoginForm} {user : User} {method : String}
    (h : FirstFactorOk cfg realm form log user method) (hlog : log ⊆ log') :
    FirstFactorOk cfg realm form log' user method := by
  cases h with
  | password hread hverify => exact .password (hread.mono hlog) hverify
  | ldap hprovider hbind hresolve hstatus =>
    exact .ldap hprovider (hbind.mono hlog) (hresolve.mono hlog) hstatus

theorem Usable.mono {user : User} (h : Usable log user) (hlog : log ⊆ log') :
    Usable log' user := by
  obtain ⟨time, htime, hunlocked⟩ := h.unlocked
  exact ⟨h.enabled, time, htime.mono hlog, hunlocked⟩

theorem Admitted.mono {form : LoginForm} {user : User} {method : String}
    (h : Admitted cfg realm form log user method) (hlog : log ⊆ log') :
    Admitted cfg realm form log' user method :=
  ⟨h.factor.mono hlog, h.usable.mono hlog⟩

theorem SecondFactorOk.mono {user : User} {recoveryUsed : Bool}
    (h : SecondFactorOk realm log user recoveryUsed) (hlog : log ⊆ log') :
    SecondFactorOk realm log' user recoveryUsed := by
  cases h with
  | none hno => exact .none hno
  | totp hyes hstep => exact .totp hyes (hstep.mono hlog)
  | recovery hyes hcode => exact .recovery hyes (hcode.mono hlog)

theorem Verified.mono {uid challengeId : String} {assertion : Assertion} {challenge : Challenge}
    {credential : Credential} {user : User} {verification : Verification}
    (h : Verified cfg realm uid challengeId assertion log challenge credential user verification)
    (hlog : log ⊆ log') :
    Verified cfg realm uid challengeId assertion log' challenge credential user verification :=
  ⟨h.consumed.mono hlog, h.found.mono hlog, h.read.mono hlog, h.usable.mono hlog, h.verified⟩

theorem Current.mono {record : StateRecord} (h : Current realm log record) (hlog : log ⊆ log') :
    Current realm log' record := by
  unfold Current at h ⊢
  split
  · trivial
  · rename_i version hversion
    simp only [hversion] at h
    obtain ⟨accountId, haccount, hanswer⟩ := h
    exact ⟨accountId, haccount, hanswer.mono hlog⟩

theorem Consumed.mono {state : String} {payload : Payload} (h : Consumed realm state log payload)
    (hlog : log ⊆ log') : Consumed realm state log' payload := by
  obtain ⟨record, hpayload, hcurrent, hfound⟩ := h.found
  exact ⟨⟨record, hpayload, hcurrent.mono hlog, hfound.mono hlog⟩, h.consumed.mono hlog⟩

theorem Validated.mono {p : SamlProvider} {response relayState : String} {v : Validation}
    {pending : Pending} {profile : SamlProfile}
    (h : Validated cfg p realm response relayState log v pending profile) (hlog : log ⊆ log') :
    Validated cfg p realm response relayState log' v pending profile := by
  obtain ⟨time, htime, hdetails⟩ := h.details
  exact {
    read := h.read.mono hlog
    enveloped := h.enveloped
    validated := h.validated.mono hlog
    bound := h.bound
    details := ⟨time, htime.mono hlog, hdetails⟩
    claimedResponse := h.claimedResponse.mono hlog
    claimedAssertion := h.claimedAssertion.mono hlog
    consumed := h.consumed.mono hlog
    result := h.result }

theorem Upstream.mono {request : Request} {providerId : String} {extension : Extension}
    {result : FederationResult} (h : Upstream cfg request log realm providerId extension result)
    (hlog : log ⊆ log') : Upstream cfg request log' realm providerId extension result := by
  cases h with
  | oidc hrequest hp hconsumed hprovider hvalid =>
    exact .oidc hrequest hp (hconsumed.mono hlog) hprovider (hvalid.mono hlog)
  | saml hrequest hp hvalid => exact .saml hrequest hp (hvalid.mono hlog)

theorem Resolves.mono {result : FederationResult} {user : User}
    (h : Resolves realm log result user) (hlog : log ⊆ log') : Resolves realm log' result user := by
  obtain ⟨status, hstatus, hresolve⟩ := h.resolved
  exact ⟨⟨status, hstatus, hresolve.mono hlog⟩, h.usable.mono hlog⟩

end Mono

/-! ## Programs that routes share -/

section Shared

variable {R : Entry operations State → Prop} {cfg : Config} {request : Request} {α : Type}

theorem obeys_call {P : Log → Op → Prop} {Q : Log → α → Prop} {log : Log} {op : Op}
    {f : op.Res → Route α} :
    (call op >>= f).Obeys R P Q log ↔ P log op ∧ ∀ res before after,
      R ⟨op, res, before, after⟩ → (f res).Obeys R P Q (⟨op, res, before, after⟩ :: log) :=
  Iff.rfl

theorem obeys_last {P : Log → Op → Prop} {op : Op} {Q : Log → op.Res → Prop} {log : Log} :
    (call op).Obeys R P Q log ↔ P log op ∧ ∀ res before after,
      R ⟨op, res, before, after⟩ → Q (⟨op, res, before, after⟩ :: log) res :=
  Iff.rfl

theorem consumeState_obeys (realm state : String)
    (hrequest : ∀ realm' uid handle, request = .complete realm' uid handle →
      realm' = realm ∧ handle = state) :
    (consumeState realm state).Obeys R (Performs cfg request)
      (fun log' payload => Quietly [] log' ∧ Free Op.isValidation log' ∧
        ∀ x, payload = some x → Consumed realm state log' x) [] := by
  unfold consumeState
  split
  case isFalse => exact ⟨.refl [], free_nil _, nofun⟩
  refine obeys_call.mpr ⟨rfl, fun found before after _ => ?_⟩
  have hfound : Free Op.isValidation
      [(⟨.artifact (.findState realm state), found, before, after⟩ : Entry operations State)] :=
    (free_nil _).cons rfl
  cases found with
  | none => exact ⟨.cons rfl, hfound, nofun⟩
  | some record =>
    refine Program.obeys_bind.mpr ?_
    -- the check of the security version
    have hcurrent : ∀ log₁ : Log, Answered log₁ (.artifact (.findState realm state)) (some record) →
        Free Op.isValidation log₁ → (isCurrent realm record).Obeys R (Performs cfg request)
          (fun log' current => Quietly log₁ log' ∧ Free Op.isValidation log' ∧
            (current = true → Current realm log' record)) log₁ := by
      intro log₁ hfound hfree
      unfold isCurrent
      split
      · rename_i hversion
        exact ⟨.refl _, hfree, fun _ => by simp [Current, hversion]⟩
      · rename_i version accountId hversion haccount
        refine obeys_call.mpr ⟨?_, fun current _ _ _ =>
          ⟨.cons rfl, hfree.cons rfl, fun h => ?_⟩⟩
        · intro realm' uid handle heq
          obtain ⟨rfl, rfl⟩ := hrequest _ _ _ heq
          exact ⟨record, hfound⟩
        simp only [Current, hversion]
        exact ⟨accountId, haccount, of_decide_eq_true h ▸ .here⟩
      · exact ⟨.refl _, hfree, nofun⟩
    refine (hcurrent _ .here hfound).mono (fun _ _ h => h) fun log' current h => ?_
    obtain ⟨hlog, hfree, hcurrent⟩ := h
    cases current with
    | false => exact ⟨.trans (.cons rfl) hlog, hfree, nofun⟩
    | true =>
      refine obeys_call.mpr ⟨trivial, fun consumed _ _ _ => ?_⟩
      cases consumed with
      | false => exact ⟨.trans (.trans (.cons rfl) hlog) (.cons rfl), hfree.cons rfl, nofun⟩
      | true =>
        refine ⟨.trans (.trans (.cons rfl) hlog) (.cons rfl), hfree.cons rfl, ?_⟩
        rintro _ ⟨⟩
        exact ⟨⟨record, rfl, (hcurrent rfl).mono (List.subset_cons_self _ _),
          (Answered.here.mono hlog.subset).there⟩, .here⟩

theorem resolveFederatedLogin_obeys (realm : String) (identity : Identity) (allowCreate : Bool)
    (log : Log) :
    (resolveFederatedLogin realm identity allowCreate).Obeys R (Performs cfg request)
      (fun log' result => Quietly log log' ∧ ∀ user, result = some user → user.enabled = true ∧
        ∃ status, (status = ResolutionStatus.resolved ∨ status = .created) ∧
          Answered log' (.account (.resolve realm identity allowCreate)) ⟨status, some user⟩)
      log := by
  unfold resolveFederatedLogin
  refine obeys_call.mpr ⟨trivial, fun resolution _ _ _ => ?_⟩
  obtain ⟨status, user⟩ := resolution
  dsimp only
  split
  case h_3 => exact ⟨.cons rfl, fun _ h => nomatch h⟩
  all_goals
    split
    · rename_i henabled
      refine ⟨.cons rfl, ?_⟩
      rintro _ ⟨⟩
      exact ⟨henabled, _, by simp, .here⟩
    · exact ⟨.cons rfl, fun _ h => nomatch h⟩

theorem authenticateLdap_obeys (realm login secret : String) (providers : List LdapProvider)
    (log : Log) :
    (authenticateLdap realm login secret providers).Obeys R (Performs cfg request)
      (fun log' result => Quietly log log' ∧ ∀ identity allowCreate,
        result = some (identity, allowCreate) → ∃ provider ∈ providers, ∃ subject,
          identity = ⟨provider.id, provider.url, subject⟩ ∧
          allowCreate = provider.jitProvisioning ∧
          Answered log' (.upstream (.ldap realm provider.id (Text.trim login) secret))
            (some subject)) log := by
  induction providers generalizing log with
  | nil => exact ⟨.refl log, fun _ _ h => nomatch h⟩
  | cons provider providers ih =>
    -- a provider that fails leaves the rest of the list
    have hrest : ∀ log₁, Quietly log log₁ →
        (authenticateLdap realm login secret providers).Obeys R (Performs cfg request)
          (fun log' result => Quietly log log' ∧ ∀ identity allowCreate,
            result = some (identity, allowCreate) → ∃ p ∈ provider :: providers, ∃ subject,
              identity = ⟨p.id, p.url, subject⟩ ∧ allowCreate = p.jitProvisioning ∧
              Answered log' (.upstream (.ldap realm p.id (Text.trim login) secret))
                (some subject)) log₁ := by
      intro log₁ hlog₁
      refine (ih log₁).mono (fun _ _ h => h) fun log' result h => ⟨hlog₁.trans h.1, ?_⟩
      intro identity allowCreate hresult
      obtain ⟨p, hp, hfacts⟩ := h.2 identity allowCreate hresult
      exact ⟨p, List.mem_cons_of_mem _ hp, hfacts⟩
    unfold authenticateLdap
    split
    · exact hrest log (.refl log)
    · refine obeys_call.mpr ⟨trivial, fun subject _ _ _ => ?_⟩
      cases subject with
      | none => exact hrest _ (.cons rfl)
      | some subject =>
        refine ⟨.cons rfl, ?_⟩
        rintro _ _ ⟨⟩
        exact ⟨provider, List.mem_cons_self, subject, rfl, rfl, .here⟩

end Shared

/-! ## Passwords and LDAP -/

section Password

variable {R : Entry operations State → Prop} {cfg : Config} {realm uid : String}
  {form : LoginForm}

theorem firstFactor_obeys :
    (firstFactor cfg realm form).Obeys R (Performs cfg (.login realm uid form))
      (fun log first => Quietly [] log ∧ ∀ user, first.user = some user →
        (first.passwordOk = true → FirstFactorOk cfg realm form log user first.method) ∧
        ((∃ method, FirstFactorOk cfg realm form log user method) ∨
          Answered log (.account (.findUserByLogin realm form.login)) (some user))) [] := by
  unfold firstFactor
  refine obeys_call.mpr ⟨trivial, fun found _ _ _ => ?_⟩
  dsimp only
  split
  · rename_i hverify
    refine ⟨.cons rfl, ?_⟩
    rintro user rfl
    exact ⟨fun _ => .password .here hverify, .inr .here⟩
  · refine Program.obeys_bind.mpr ((authenticateLdap_obeys ..).mono (fun _ _ h => h) ?_)
    rintro log₁ result ⟨hlog₁, hresult⟩
    cases result with
    | none =>
      refine ⟨.trans (.cons rfl) hlog₁, ?_⟩
      rintro user rfl
      exact ⟨nofun, .inr (Answered.here.mono hlog₁.subset)⟩
    | some result =>
      obtain ⟨identity, allowCreate⟩ := result
      obtain ⟨provider, hprovider, subject, rfl, rfl, hbind⟩ := hresult _ _ rfl
      refine Program.obeys_bind.mpr ((resolveFederatedLogin_obeys ..).mono (fun _ _ h => h) ?_)
      rintro log₂ resolved ⟨hlog₂, hresolved⟩
      cases resolved with
      | none => exact ⟨.trans (.trans (.cons rfl) hlog₁) hlog₂, fun _ h => nomatch h⟩
      | some user =>
        refine ⟨.trans (.trans (.cons rfl) hlog₁) hlog₂, ?_⟩
        rintro _ ⟨⟩
        obtain ⟨-, status, hstatus, hresolve⟩ := hresolved user rfl
        have hfactor : FirstFactorOk cfg realm form log₂ user "ldap" :=
          .ldap hprovider (hbind.mono hlog₂.subset) hresolve hstatus
        exact ⟨fun _ => hfactor, .inl ⟨_, hfactor⟩⟩

/-- What the second factor leaves: the facts of the first one stay, no failure is recorded, and
a success is in the log. -/
def SecondDone (realm : String) (user : User) (log log' : Log) (second : SecondFactor) : Prop :=
  log ⊆ log' ∧ Free Op.isFailure log' ∧
    ∀ recoveryUsed, second = .ok recoveryUsed → SecondFactorOk realm log' user recoveryUsed

theorem recoveryFactor_obeys {user : User} {method : String} {log log' : Log}
    (h : Admitted cfg realm form log' user method) (hconfirmed : user.totpConfirmed = true)
    (hlog : log ⊆ log') (hfree : Free Op.isFailure log') :
    (recoveryFactor cfg realm user form.otp).Obeys R (Performs cfg (.login realm uid form))
      (SecondDone realm user log) log' := by
  unfold recoveryFactor
  split
  · exact ⟨hlog, hfree, nofun⟩
  · refine obeys_call.mpr ⟨⟨uid, form, user, method, rfl, rfl, hconfirmed, h⟩,
      fun used _ _ _ => ?_⟩
    have hfree' : ∀ x, x.op.isFailure = false → Free Op.isFailure (x :: log') :=
      fun _ hx => List.forall_mem_cons.mpr ⟨hx, hfree⟩
    cases used with
    | false => exact ⟨List.subset_cons_of_subset _ hlog, hfree' _ rfl, nofun⟩
    | true =>
      refine ⟨List.subset_cons_of_subset _ hlog, hfree' _ rfl, ?_⟩
      rintro _ ⟨⟩
      exact .recovery hconfirmed .here

theorem secondFactor_obeys {user : User} {method : String} {log : Log}
    (h : Admitted cfg realm form log user method) (hfree : Free Op.isFailure log) :
    (secondFactor cfg realm user form.otp).Obeys R (Performs cfg (.login realm uid form))
      (SecondDone realm user log) log := by
  unfold secondFactor
  cases hconfirmed : user.totpConfirmed with
  | false =>
    refine ⟨List.Subset.refl _, hfree, ?_⟩
    rintro _ ⟨⟩
    exact .none hconfirmed
  | true =>
    simp only [Bool.not_true, Bool.false_eq_true, if_false]
    split
    · exact ⟨List.Subset.refl _, hfree, nofun⟩
    split
    · exact ⟨List.Subset.refl _, hfree, nofun⟩
    refine obeys_call.mpr ⟨trivial, fun time before after _ => ?_⟩
    have hsub : log ⊆ ⟨Op.now, time, before, after⟩ :: log := List.subset_cons_self _ _
    split
    · exact recoveryFactor_obeys (h.mono hsub) hconfirmed hsub
        (hfree.cons rfl)
    · rename_i step _
      refine obeys_call.mpr ⟨⟨uid, form, user, method, rfl, rfl, hconfirmed, h.mono hsub⟩,
        fun accepted before' after' _ => ?_⟩
      have hfree' : ∀ x : Entry operations State, x.op.isFailure = false →
          Free Op.isFailure (x :: ⟨Op.now, time, before, after⟩ :: log) :=
        fun _ hx => List.forall_mem_cons.mpr ⟨hx, hfree.cons rfl⟩
      have hsub' : ∀ x, log ⊆ x :: ⟨Op.now, time, before, after⟩ :: log :=
        fun _ => List.subset_cons_of_subset _ hsub
      cases accepted with
      | false =>
        exact recoveryFactor_obeys (h.mono (hsub' _)) hconfirmed (hsub' _) (hfree' _ rfl)
      | true =>
        refine ⟨hsub' _, hfree' _ rfl, ?_⟩
        rintro _ ⟨⟩
        exact .totp hconfirmed .here

theorem reject_obeys {user : Option User} {locked : Bool} {log : Log}
    (h : ∀ u, user = some u → locked = false →
      ((∃ method, FirstFactorOk cfg realm form log u method) ∨
        Answered log (.account (.findUserByLogin realm form.login)) (some u)) ∧
      ∃ time, Answered log .now time ∧ u.isLocked time = false) :
    (reject realm user locked).Obeys R (Performs cfg (.login realm uid form))
      (fun _ _ => True) log := by
  unfold reject
  split
  · trivial
  · rename_i u
    split
    · trivial
    · rename_i hlocked
      exact obeys_call.mpr ⟨⟨uid, form, u, rfl, rfl, h u rfl (by simpa using hlocked)⟩,
        fun _ _ _ _ => trivial⟩

theorem login_obeys :
    (login cfg realm uid form).Obeys R (Performs cfg (.login realm uid form))
      (fun _ _ => True) [] := by
  unfold login
  refine Program.obeys_bind.mpr (firstFactor_obeys.mono (fun _ _ h => h) ?_)
  rintro log₁ ⟨found, passwordOk, method⟩ ⟨hlog₁, hfirst⟩
  have hfree₁ : Free Op.isFailure log₁ := hlog₁.free (by simp [Free]) quiet_isFailure
  refine obeys_call.mpr ⟨trivial, fun time before after _ => ?_⟩
  have hsub : log₁ ⊆ ⟨Op.now, time, before, after⟩ :: log₁ := List.subset_cons_self _ _
  cases found with
  | none => exact reject_obeys (fun u h => nomatch h)
  | some user =>
    obtain ⟨hfactor, hread⟩ := hfirst user rfl
    have hread' : ∀ log', log₁ ⊆ log' → (∃ method, FirstFactorOk cfg realm form log' user method) ∨
        Answered log' (.account (.findUserByLogin realm form.login)) (some user) := by
      intro log' hlog
      rcases hread with ⟨m, h⟩ | h
      · exact .inl ⟨m, h.mono hlog⟩
      · exact .inr (h.mono hlog)
    dsimp only
    split
    · rename_i hok
      simp only [Bool.and_eq_true, Bool.not_eq_true'] at hok
      have hadmitted : Admitted cfg realm form (⟨Op.now, time, before, after⟩ :: log₁) user method :=
        ⟨(hfactor hok.1.1).mono hsub, hok.1.2, time, .here, hok.2⟩
      refine Program.obeys_bind.mpr ((secondFactor_obeys hadmitted
        (hfree₁.cons rfl)).mono (fun _ _ h => h) ?_)
      rintro log₂ second ⟨hlog₂, hfree₂, hsecond⟩
      cases second with
      | error => trivial
      | failed =>
        refine reject_obeys fun u hu _ => ?_
        cases hu
        exact ⟨hread' log₂ (List.Subset.trans hsub hlog₂), time, Answered.here.mono hlog₂, hok.2⟩
      | ok recoveryUsed =>
        -- the rehash is quiet; after it the login succeeds
        have hfinish : ∀ log₃, log₂ ⊆ log₃ → Free Op.isFailure log₃ →
            Program.Obeys R (Performs cfg (.login realm uid form)) (fun _ _ => True) log₃
              (succeed realm uid user method recoveryUsed) := by
          intro log₃ hlog₃ hfree₃
          have hadmitted₃ := hadmitted.mono (List.Subset.trans hlog₂ hlog₃)
          have hsecond₃ := (hsecond recoveryUsed rfl).mono hlog₃
          unfold succeed
          refine obeys_call.mpr ⟨⟨hfree₃, user, rfl, .login rfl hadmitted₃ hsecond₃⟩,
            fun _ before₄ after₄ _ => ?_⟩
          refine obeys_call.mpr ⟨⟨hfree₃.cons rfl, ?_⟩, fun _ _ _ _ => trivial⟩
          exact .login rfl (hadmitted₃.mono (List.subset_cons_self _ _))
            (hsecond₃.mono (List.subset_cons_self _ _))
        dsimp only
        split
        · exact obeys_call.mpr ⟨trivial, fun _ _ _ _ => hfinish _ (List.subset_cons_self _ _)
            (hfree₂.cons rfl)⟩
        · exact hfinish _ (List.Subset.refl _) hfree₂
    · exact reject_obeys fun u hu hlocked =>
        by cases hu; exact ⟨hread' _ hsub, time, .here, hlocked⟩

end Password

/-! ## Passkeys -/

section Passkey

variable {R : Entry operations State → Prop} {cfg : Config} {realm uid : String}

theorem passkeyOptions_obeys {value : String} :
    (passkeyOptions cfg realm uid value).Obeys R (Performs cfg (.passkeyOptions realm uid value))
      (fun _ _ => True) [] := by
  unfold passkeyOptions
  refine obeys_call.mpr ⟨trivial, fun time _ _ _ => ?_⟩
  exact obeys_call.mpr ⟨⟨uid, value, rfl, rfl, rfl, rfl⟩, fun _ _ _ _ => trivial⟩

theorem verifyPasskey_eq_some {time : Instant} {challenge : Challenge} {assertion : Assertion}
    {credential : Credential} {user : User} {verification : Verification}
    (h : verifyPasskey cfg time challenge assertion credential user = some verification) :
    user.enabled = true ∧ user.isLocked time = false ∧
      cfg.verifyAuthentication assertion challenge.challenge credential = some verification := by
  unfold verifyPasskey at h
  split at h
  · rename_i hok
    simp only [Bool.and_eq_true, Bool.not_eq_true'] at hok
    exact ⟨hok.1.1, hok.1.2, h⟩
  · cases h

theorem passkeyLogin_obeys {challengeId : Option String} {assertion : Option Assertion} :
    (passkeyLogin cfg realm uid challengeId assertion).Obeys R
      (Performs cfg (.passkey realm uid challengeId assertion)) (fun _ _ => True) [] := by
  unfold passkeyLogin
  -- after the challenge: `log` holds nothing but its consumption
  suffices hrest : ∀ (challenge : Option Challenge) (log : Log),
      (∀ c, challenge = some c → ∃ id, challengeId = some id ∧ Answered log
        (.passkey (.consumeChallenge ⟨realm, id, .authentication, none, some uid⟩)) (some c)) →
      Free Op.isFailure log → Free Op.isUpdate log →
      Program.Obeys R (Performs cfg (.passkey realm uid challengeId assertion))
        (fun _ _ => True) log (passkeyAssertion cfg realm uid challenge assertion) by
    cases challengeId with
    | none => exact hrest none [] nofun (by simp [Free]) (by simp [Free])
    | some id =>
      refine obeys_call.mpr ⟨⟨rfl, realm, uid, id, assertion, rfl, rfl⟩, fun found _ _ _ => ?_⟩
      refine hrest found _ ?_ (by simp [Free, Op.isFailure]) (by simp [Free, Op.isUpdate])
      rintro c rfl
      exact ⟨id, rfl, .here⟩
  intro challenge log hchallenge hfailure hupdate
  unfold passkeyAssertion
  cases assertion with
  | none => trivial
  | some assertion =>
    refine obeys_call.mpr ⟨trivial, fun credential before₁ after₁ _ => ?_⟩
    cases credential with
    | none => trivial
    | some credential =>
      refine obeys_call.mpr ⟨trivial, fun user before₂ after₂ _ => ?_⟩
      refine obeys_call.mpr ⟨trivial, fun time before₃ after₃ _ => ?_⟩
      split
      case h_2 => trivial
      rename_i challenge user _
      split
      · trivial
      rename_i verification hverify
      obtain ⟨id, rfl, hconsumed⟩ := hchallenge challenge rfl
      obtain ⟨henabled, hunlocked, hverified⟩ := verifyPasskey_eq_some hverify
      have hok : ∀ log', (⟨.now, time, before₃, after₃⟩ ::
            ⟨.account (.findUserById realm credential.userId), some user, before₂, after₂⟩ ::
            ⟨.passkey (.findCredential realm assertion.id), some credential, before₁, after₁⟩ ::
            log : Log) ⊆ log' →
          Verified cfg realm uid id assertion log' challenge credential user verification := by
        intro log' hlog
        refine ⟨(Answered.there (.there (.there hconsumed))).mono hlog,
          (Answered.there (.there .here)).mono hlog, (Answered.there .here).mono hlog,
          ⟨henabled, time, Answered.here.mono hlog, hunlocked⟩, hverified⟩
      have hfree : ∀ {kind : Op → Bool}, kind .now = false →
          kind (.account (.findUserById realm credential.userId)) = false →
          kind (.passkey (.findCredential realm assertion.id)) = false → Free kind log →
          Free kind (⟨.now, time, before₃, after₃⟩ ::
            ⟨.account (.findUserById realm credential.userId), some user, before₂, after₂⟩ ::
            ⟨.passkey (.findCredential realm assertion.id), some credential, before₁, after₁⟩ ::
            log) :=
        fun h₁ h₂ h₃ h => List.forall_mem_cons.mpr ⟨h₁, List.forall_mem_cons.mpr
          ⟨h₂, List.forall_mem_cons.mpr ⟨h₃, h⟩⟩⟩
      refine obeys_call.mpr ⟨⟨hfree rfl rfl rfl hupdate, uid, id, assertion, challenge, credential,
        user, rfl, hok _ (List.Subset.refl _), rfl, rfl⟩, fun updated before₄ after₄ _ => ?_⟩
      cases updated with
      | false => trivial
      | true =>
        have hfailure' : ∀ x : Entry operations State, x.op.isFailure = false →
            Free Op.isFailure (x :: _) :=
          fun _ hx => List.forall_mem_cons.mpr ⟨hx, hfree rfl rfl rfl hfailure⟩
        refine obeys_call.mpr ⟨⟨hfailure' _ rfl, user, rfl, .passkey rfl ⟨challenge, credential,
          verification, hok _ (List.subset_cons_self _ _), .here⟩⟩, fun _ before₅ after₅ _ => ?_⟩
        refine obeys_call.mpr ⟨⟨Free.cons (hfailure' _ rfl) rfl, ?_⟩,
          fun _ _ _ _ => trivial⟩
        exact .passkey rfl ⟨challenge, credential, verification,
          hok _ (List.subset_cons_of_subset _ (List.subset_cons_self _ _)), .there .here⟩

end Passkey

/-! ## Federation -/

section Federation

variable {R : Entry operations State → Prop} {cfg : Config} {request : Request} {realm : String}

theorem claimMarkers_obeys {p : SamlProvider} {relayState responseId assertionId : String}
    (log : Log) :
    (claimMarkers p realm relayState responseId assertionId).Obeys R (Performs cfg request)
      (fun log' consumed => Quietly log log' ∧ ∀ value, consumed = some value →
        Answered log'
          (.artifact (.putIfAbsent (p.key realm .response responseId) .used p.replayTtlMs)) true ∧
        Answered log'
          (.artifact (.putIfAbsent (p.key realm .assertion assertionId) .used p.replayTtlMs)) true ∧
        Answered log' (.artifact (.consume (p.key realm .state relayState))) (some value)) log := by
  unfold claimMarkers
  refine obeys_call.mpr ⟨nofun, fun response _ _ _ => ?_⟩
  cases response with
  | false => exact ⟨.cons rfl, fun _ h => nomatch h⟩
  | true =>
    refine obeys_call.mpr ⟨nofun, fun assertion _ _ _ => ?_⟩
    cases assertion with
    | false => exact ⟨.trans (.cons rfl) (.cons rfl), fun _ h => nomatch h⟩
    | true =>
      refine obeys_last.mpr ⟨.inr rfl, fun consumed _ _ _ => ?_⟩
      refine ⟨.trans (.trans (.cons rfl) (.cons rfl)) (.cons rfl), ?_⟩
      rintro value rfl
      exact ⟨.there (.there .here), .there .here, .here⟩

theorem consumePost_obeys (p : SamlProvider) (response relayState : String) {log : Log}
    (hfree : Free Op.isValidation log) :
    (consumePost cfg p realm response relayState).Obeys R (Performs cfg request)
      (fun log' result => Quietly log log' ∧ ∀ v, result = some v → ∃ pending profile,
        Validated cfg p realm response relayState log' v pending profile) log := by
  unfold consumePost
  split
  case isFalse => exact ⟨.refl log, fun _ h => nomatch h⟩
  refine obeys_call.mpr ⟨trivial, fun found before₁ after₁ _ => ?_⟩
  split
  case h_2 => exact ⟨.cons rfl, fun _ h => nomatch h⟩
  rename_i pending envelope henvelope _
  split
  case isFalse => exact ⟨.cons rfl, fun _ h => nomatch h⟩
  rename_i hbound
  refine obeys_call.mpr ⟨hfree.cons rfl, fun profile before₂ after₂ _ => ?_⟩
  cases profile with
  | none => exact ⟨.trans (.cons rfl) (.cons rfl), fun _ h => nomatch h⟩
  | some profile =>
    dsimp only
    split
    case isFalse => exact ⟨.trans (.cons rfl) (.cons rfl), fun _ h => nomatch h⟩
    rename_i hprofile
    refine obeys_call.mpr ⟨trivial, fun time before₃ after₃ _ => ?_⟩
    have hquiet : Quietly log (⟨.now, time, before₃, after₃⟩ ::
        ⟨.upstream (.saml realm p.id response), some profile, before₂, after₂⟩ ::
        ⟨.artifact (.get (p.key realm .state relayState)), some (.pending pending), before₁,
          after₁⟩ :: log) := .trans (.trans (.cons rfl) (.cons rfl)) (.cons rfl)
    split
    · exact ⟨hquiet, fun _ h => nomatch h⟩
    · rename_i assertionId hassertion
      refine Program.obeys_bind.mpr ((claimMarkers_obeys _).mono (fun _ _ h => h) ?_)
      rintro log₄ consumed ⟨hlog₄, hclaimed⟩
      split
      · rename_i hconsumed
        obtain ⟨hresponse, hassertion', hstate⟩ := hclaimed _ hconsumed.1
        refine ⟨hquiet.trans hlog₄, ?_⟩
        rintro _ ⟨⟩
        exact ⟨pending, profile, {
          read := (Answered.there (.there .here)).mono hlog₄.subset
          enveloped := ⟨envelope, henvelope, rfl, hbound.2, hbound.1⟩
          validated := (Answered.there .here).mono hlog₄.subset
          bound := hprofile
          details := ⟨time, Answered.here.mono hlog₄.subset, hassertion⟩
          claimedResponse := hresponse
          claimedAssertion := hassertion'
          consumed := hstate
          result := ⟨rfl, rfl, rfl⟩ }⟩
      · exact ⟨hquiet.trans hlog₄, fun _ h => nomatch h⟩

theorem consumeSaml_obeys {providerId response relayState : String} {p : SamlProvider}
    (hp : samlProvider cfg realm providerId = some p) :
    (consumeSaml cfg realm p response relayState).Obeys R
      (Performs cfg (.acs realm providerId response relayState))
      (fun log result => Quietly [] log ∧ ∀ x, result = some x →
        Upstream cfg (.acs realm providerId response relayState) log realm providerId .saml x)
      [] := by
  unfold consumeSaml
  refine Program.obeys_bind.mpr ((consumePost_obeys _ _ _ (free_nil _)).mono (fun _ _ h => h) ?_)
  rintro log validation ⟨hlog, hvalid⟩
  cases validation with
  | none => exact ⟨hlog, fun _ h => nomatch h⟩
  | some v =>
    refine ⟨hlog, ?_⟩
    rintro _ ⟨⟩
    obtain ⟨pending, profile, hv⟩ := hvalid v rfl
    exact .saml rfl hp hv

theorem consumeOidc_obeys {providerId : String} {query : CallbackQuery} {p : OidcProvider}
    (hp : oidcProvider cfg realm providerId = some p) :
    (consumeOidc cfg realm p query).Obeys R (Performs cfg (.callback realm providerId query))
      (fun log result => Quietly [] log ∧ ∀ x, result = some x →
        Upstream cfg (.callback realm providerId query) log realm providerId .oidc x) [] := by
  unfold consumeOidc
  refine Program.obeys_bind.mpr ((consumeState_obeys _ _ fun _ _ _ h =>
    Request.noConfusion h).mono (fun _ _ h => h) ?_)
  rintro log₁ payload ⟨hlog₁, hfree, hpayload⟩
  split
  case h_2 => exact ⟨hlog₁, fun _ h => nomatch h⟩
  rename_i transaction
  split
  case isFalse => exact ⟨hlog₁, fun _ h => nomatch h⟩
  rename_i hbound
  split
  case h_2 => exact ⟨hlog₁, fun _ h => nomatch h⟩
  rename_i code _ _
  split
  · exact ⟨hlog₁, fun _ h => nomatch h⟩
  refine obeys_call.mpr ⟨hfree, fun subject _ _ _ => ?_⟩
  cases subject with
  | none => exact ⟨hlog₁.trans (.cons rfl), fun _ h => nomatch h⟩
  | some subject =>
    refine ⟨hlog₁.trans (.cons rfl), ?_⟩
    rintro _ ⟨⟩
    exact .oidc rfl hp ((hpayload _ rfl).mono (List.subset_cons_self _ _)) hbound.1 .here

/-- The state is saved under a new name, when it may be saved. -/
theorem issueState_obeys {payload : Payload} {expiresIn : Int} {log : Log}
    (hrequest : ∀ realm uid handle, request ≠ .complete realm uid handle)
    (hfree : Free Op.isSave log)
    (hsaves : ∀ log' version, log ⊆ log' →
      (match payload.accountId? with
        | none => version = none
        | some accountId => ∃ v, version = some v ∧
          Answered log' (.account (.securityVersionFor realm accountId)) (some v)) →
      Saves cfg request log' realm payload version) :
    (issueState realm payload expiresIn).Obeys R (Performs cfg request) (fun _ _ => True) log := by
  unfold issueState
  refine obeys_call.mpr ⟨trivial, fun state before₁ after₁ _ => ?_⟩
  have hfree₁ : Free Op.isSave (⟨.random, state, before₁, after₁⟩ :: log : Log) :=
    hfree.cons rfl
  split
  · rename_i haccount
    refine obeys_call.mpr ⟨⟨hfree₁, .here, hsaves _ _ (List.subset_cons_self _ _) ?_⟩,
      fun _ _ _ _ => trivial⟩
    rw [haccount]
  · rename_i accountId haccount
    refine obeys_call.mpr ⟨fun _ _ _ h => absurd h (hrequest _ _ _), fun version _ _ _ => ?_⟩
    cases version with
    | none => trivial
    | some version =>
      refine obeys_call.mpr ⟨⟨hfree₁.cons rfl, .there .here,
        hsaves _ _ (List.subset_cons_of_subset _ (List.subset_cons_self _ _)) ?_⟩,
        fun _ _ _ _ => trivial⟩
      rw [haccount]
      exact ⟨version, rfl, .here⟩

theorem completeCallback_obeys {extension : Extension} {providerId : String}
    {result : FederationResult} {log : Log} (hlog : Quietly [] log)
    (hupstream : Upstream cfg request log realm providerId extension result) :
    (completeCallback cfg realm extension providerId result).Obeys R (Performs cfg request)
      (fun _ _ => True) log := by
  unfold completeCallback
  split
  · trivial
  rename_i amr acr hnormal
  refine Program.obeys_bind.mpr (Program.Obeys.mono (P := Performs cfg request)
    (Q := fun log' user => log ⊆ log' ∧ Free Op.isSave log' ∧
      ∀ u, user = some u → Resolves realm log' result u) ?_ (fun _ _ h => h) ?_)
  · unfold accountResolver
    refine Program.obeys_bind.mpr ((resolveFederatedLogin_obeys ..).mono (fun _ _ h => h) ?_)
    rintro log₁ resolved ⟨hlog₁, hresolved⟩
    have hsave₁ : Free Op.isSave log₁ := (hlog.trans hlog₁).free (by simp [Free]) quiet_isSave
    cases resolved with
    | none => exact ⟨hlog₁.subset, hsave₁, fun _ h => nomatch h⟩
    | some user =>
      obtain ⟨henabled, status, hstatus, hresolve⟩ := hresolved user rfl
      refine obeys_call.mpr ⟨trivial, fun time before₂ after₂ _ => ?_⟩
      have hsub : log ⊆ ⟨.now, time, before₂, after₂⟩ :: log₁ :=
        List.subset_cons_of_subset _ hlog₁.subset
      split
      · exact ⟨hsub, hsave₁.cons rfl, fun _ h => nomatch h⟩
      · rename_i hunlocked
        have hresolves : Resolves realm (⟨.now, time, before₂, after₂⟩ :: log₁) result user :=
          ⟨⟨status, hstatus, hresolve.there⟩, henabled, time, .here, by simpa using hunlocked⟩
        have hfailure : Free Op.isFailure log₁ :=
          (hlog.trans hlog₁).free (by simp [Free]) quiet_isFailure
        refine obeys_call.mpr ⟨⟨hfailure.cons rfl, user, rfl,
          .federated (hupstream.mono hsub) hresolves⟩, fun _ _ _ _ => ?_⟩
        refine ⟨List.subset_cons_of_subset _ hsub, List.forall_mem_cons.mpr
          ⟨rfl, hsave₁.cons rfl⟩, ?_⟩
        rintro _ ⟨⟩
        exact hresolves.mono (List.subset_cons_self _ _)
  · rintro log₁ user ⟨hlog₁, hsave₁, hresolves⟩
    cases user with
    | none => trivial
    | some user =>
      have hrequest : ∀ realm uid handle, request ≠ .complete realm uid handle := by
        rintro _ _ _ rfl
        cases hupstream with
        | oidc hrequest => cases hrequest
        | saml hrequest => cases hrequest
      refine Program.obeys_bind.mpr ((issueState_obeys hrequest hsave₁ ?_).mono (fun _ _ h => h) ?_)
      · rintro log' version hlog' ⟨v, rfl, hversion⟩
        exact .completion (hupstream.mono (List.Subset.trans hlog₁ hlog')) ((hresolves user rfl).mono hlog')
          hversion hnormal
      · rintro log₂ (_ | handle) - <;> trivial

theorem start_obeys {p : SamlProvider} {uid : String}
    (hrequest : request = .start realm p.id uid ∨ request = .initiate realm uid .saml p.id) :
    (start p realm uid).Obeys R (Performs cfg request)
      (fun log result => ∀ relayState requestId, result = some (relayState, requestId) →
        Answered log .random requestId ∧ Answered log (.artifact (.putIfAbsent
          (p.key realm .state relayState) (.pending ⟨realm, p.id, uid, requestId⟩)
          p.requestTtlMs)) true) [] := by
  unfold start
  refine obeys_call.mpr ⟨trivial, fun relayState before₁ after₁ _ => ?_⟩
  refine obeys_call.mpr ⟨trivial, fun requestId before₂ after₂ _ => ?_⟩
  refine obeys_call.mpr ⟨nofun, fun _ before₃ after₃ _ => ?_⟩
  refine obeys_call.mpr ⟨fun _ => ⟨?_, .there (.there .here), ?_⟩, fun saved _ _ _ => ?_⟩
  · simp [Free, Op.isSave, SamlProvider.key]
  · exact .start hrequest (.there .here)
  · cases saved with
    | false => exact obeys_call.mpr ⟨.inl rfl, fun _ _ _ _ _ _ h => nomatch h⟩
    | true =>
      rintro _ _ ⟨⟩
      exact ⟨.there (.there .here), .here⟩

theorem samlProvider_id {id : String} {p : SamlProvider}
    (h : samlProvider cfg realm id = some p) : p.id = id := by
  simpa using List.find?_some h

theorem initiate_obeys {uid providerId : String} {extension : Extension} :
    (initiate cfg realm uid extension providerId).Obeys R
      (Performs cfg (.initiate realm uid extension providerId)) (fun _ _ => True) [] := by
  cases extension with
  | oidc =>
    unfold initiate
    dsimp only
    split
    · trivial
    rename_i p hp
    unfold initiateOidc
    refine Program.obeys_bind.mpr ?_
    refine obeys_call.mpr ⟨trivial, fun nonce _ _ _ => ?_⟩
    refine obeys_call.mpr ⟨trivial, fun codeVerifier _ _ _ => ?_⟩
    refine (issueState_obeys (fun _ _ _ h => Request.noConfusion h)
      (by simp [Free, Op.isSave]) ?_).mono (fun _ _ h => h) ?_
    · rintro log' version - rfl
      exact .initiate rfl hp
    · rintro log' (_ | state) - <;> trivial
  | saml =>
    unfold initiate
    dsimp only
    split
    · trivial
    rename_i p hp
    refine Program.obeys_bind.mpr ((start_obeys (.inr (by rw [samlProvider_id hp]))).mono
      (fun _ _ h => h) ?_)
    rintro log' (_ | ⟨relayState, requestId⟩) - <;> trivial

theorem oidcCallback_obeys {providerId : String} {query : CallbackQuery} :
    (oidcCallback cfg realm providerId query).Obeys R
      (Performs cfg (.callback realm providerId query)) (fun _ _ => True) [] := by
  unfold oidcCallback
  split
  · trivial
  rename_i p hp
  refine Program.obeys_bind.mpr ((consumeOidc_obeys hp).mono (fun _ _ h => h) ?_)
  rintro log result ⟨hlog, hresult⟩
  cases result with
  | none => trivial
  | some result => exact completeCallback_obeys hlog (hresult result rfl)

theorem acs_obeys {providerId response relayState : String} :
    (acs cfg realm providerId response relayState).Obeys R
      (Performs cfg (.acs realm providerId response relayState)) (fun _ _ => True) [] := by
  unfold acs
  split
  · trivial
  rename_i p hp
  refine Program.obeys_bind.mpr ((consumeSaml_obeys hp).mono (fun _ _ h => h) ?_)
  rintro log result ⟨hlog, hresult⟩
  cases result with
  | none => trivial
  | some result => exact completeCallback_obeys hlog (hresult result rfl)

theorem complete_obeys {uid handle : String} :
    (complete cfg realm uid handle).Obeys R (Performs cfg (.complete realm uid handle))
      (fun _ _ => True) [] := by
  unfold complete
  have hrequest : ∀ realm' uid' handle', Request.complete realm uid handle =
      .complete realm' uid' handle' → realm' = realm ∧ handle' = handle := by
    rintro _ _ _ ⟨⟩
    exact ⟨rfl, rfl⟩
  refine Program.obeys_bind.mpr ((consumeState_obeys _ _ hrequest).mono (fun _ _ h => h) ?_)
  rintro log payload ⟨hlog, -, hpayload⟩
  split
  case h_2 => trivial
  rename_i c
  split
  · trivial
  rename_i amr acr hnormal
  split
  · rename_i hbound
    refine obeys_call.mpr ⟨⟨hlog.free (by simp [Free]) quiet_isFailure, ?_⟩,
      fun _ _ _ _ => trivial⟩
    exact .complete rfl (hpayload _ rfl) ⟨hbound.1, hbound.2.1⟩ hbound.2.2 hnormal
  · trivial

end Federation

/-! ## All routes -/

/-- What the methods of a SAML broker have done when they return. -/
def Returns (cfg : Config) (request : Request) (log : Log) (reply : Reply) : Prop :=
  (∀ realm providerId uid relayState requestId, request = .start realm providerId uid →
    reply = .started relayState requestId → ∃ p, samlProvider cfg realm providerId = some p ∧
      Answered log (.artifact (.putIfAbsent (p.key realm .state relayState)
        (.pending ⟨realm, providerId, uid, requestId⟩) p.requestTtlMs)) true) ∧
  ∀ realm providerId response relayState uid requestId responseId assertionId,
    request = .consumePost realm providerId response relayState →
    reply = .validated uid requestId responseId assertionId →
    ∃ p subject pending profile, samlProvider cfg realm providerId = some p ∧
      Validated cfg p realm response relayState log ⟨uid, requestId, responseId, assertionId, subject⟩
        pending profile

theorem routes_spec (cfg : Config) : Spec (routes cfg) (Performs cfg) (Returns cfg) where
  obeys r := by
    cases r with
    | login realm uid form => exact login_obeys.mono (fun _ _ h => h) fun _ _ _ => ⟨nofun, nofun⟩
    | passkeyOptions realm uid challenge =>
      exact passkeyOptions_obeys.mono (fun _ _ h => h) fun _ _ _ => ⟨nofun, nofun⟩
    | passkey realm uid challengeId assertion =>
      exact passkeyLogin_obeys.mono (fun _ _ h => h) fun _ _ _ => ⟨nofun, nofun⟩
    | initiate realm uid extension providerId =>
      exact initiate_obeys.mono (fun _ _ h => h) fun _ _ _ => ⟨nofun, nofun⟩
    | callback realm providerId query =>
      exact oidcCallback_obeys.mono (fun _ _ h => h) fun _ _ _ => ⟨nofun, nofun⟩
    | acs realm providerId response relayState =>
      exact acs_obeys.mono (fun _ _ h => h) fun _ _ _ => ⟨nofun, nofun⟩
    | complete realm uid handle =>
      exact complete_obeys.mono (fun _ _ h => h) fun _ _ _ => ⟨nofun, nofun⟩
    | start realm providerId uid =>
      change Program.Obeys _ _ _ [] (program cfg (.start realm providerId uid))
      unfold program
      dsimp only
      split
      · exact ⟨nofun, nofun⟩
      rename_i p hp
      have hid := samlProvider_id hp
      refine Program.obeys_bind.mpr ((start_obeys (.inl (by rw [hid]))).mono
        (fun _ _ h => h) ?_)
      rintro log (_ | ⟨relayState, requestId⟩) hstarted
      · exact ⟨nofun, nofun⟩
      · refine ⟨?_, nofun⟩
        rintro _ _ _ _ _ ⟨⟩ ⟨⟩
        exact ⟨p, hp, hid ▸ (hstarted _ _ rfl).2⟩
    | consumePost realm providerId response relayState =>
      change Program.Obeys _ _ _ [] (program cfg (.consumePost realm providerId response relayState))
      unfold program
      dsimp only
      split
      · exact ⟨nofun, nofun⟩
      rename_i p hp
      refine Program.obeys_bind.mpr ((consumePost_obeys _ _ _ (free_nil _)).mono (fun _ _ h => h) ?_)
      rintro log (_ | v) ⟨-, hvalid⟩
      · exact ⟨nofun, nofun⟩
      · refine ⟨nofun, ?_⟩
        rintro _ _ _ _ _ _ _ _ ⟨⟩ ⟨⟩
        obtain ⟨pending, profile, hv⟩ := hvalid v rfl
        exact ⟨p, v.externalSubject, pending, profile, hp, hv⟩

end AuthMe.Login

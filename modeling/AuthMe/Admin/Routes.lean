import AuthMe.Admin.Console
import AuthMe.Http.Path

/-!
# The administration routes

The router of `src/src/routes/admin.js`: the check of a console session, which reads the
permission off the path, and the layers that Express then tries one after the other. The
routes of the console's own pages come before it and have other paths.

What the store answers about grants, the clock, the rate limit and what `req.is` says are
part of the request or arguments. A handler is reached when its function is called.
-/

namespace AuthMe.Admin.Api

open Http Store

inductive Method
  | get
  | head
  | options
  | post
  | put
  | patch
  | delete
  | other (name : String)
  deriving DecidableEq

/-- `['GET', 'HEAD', 'OPTIONS'].includes(method)`. -/
def Method.isSafe : Method → Bool
  | .get | .head | .options => true
  | _ => false

structure Settings where
  realms : List String
  publicUrl : String
  csrfFor : String → String
  isUserId : String → Bool

/-- `limited` is the answer of the rate limit, `bearer` says that the bearer token is the
administration token, `isJson` is `req.is('application/json')`, `csrf` is the header
`x-authme-csrf` and `unreadable` is the error of the body parser. -/
structure Request where
  method : Method
  path : String
  limited : Bool
  bearer : Bool
  isJson : Bool
  origin : Option String
  csrf : Option String
  now : Int
  unreadable : Option Nat
  deriving DecidableEq

structure Problem where
  status : Nat
  title : String
  detail : String
  deriving DecidableEq

/-! ## Console sessions -/

/-- The realm that the path names, `""` when it cannot be decoded. -/
def requestedAdminRealm (path : List Char) : Option String :=
  let front := (segments path).take 4
  if matchParts foldUnicode (pattern "/v1/realms/:realm") front then
    some ((decodeURIComponent (front.getLastD [])).getD "")
  else none

/-- `age >= -30_000 && age <= RECENT_ADMIN_AUTHENTICATION_MS`. -/
def hasRecentAdminAuthentication (session : AdminSession) (now : Int) : Bool :=
  -30000 ≤ now - session.createdAt && now - session.createdAt ≤ 15 * 60 * 1000

/-- `/^…$/iu.test(path)`, where `[^/]+` is written as a parameter. -/
def test (text : String) (ss : List (List Char)) : Bool := matchParts foldUnicode (pattern text) ss

/-- The characters that `.` does not stand for. -/
def isLineTerminator (c : Char) : Bool :=
  c = '\n' || c = '\r' || c = '\u2028' || c = '\u2029'

/-- `passkeys(?:\/.*)?$`. -/
def testPasskeys (ss : List (List Char)) : Bool :=
  test "/v1/realms/:realm/users/:id/passkeys" (ss.take 7) &&
    (ss.drop 7).all fun s => s.all fun c => !isLineTerminator c

/-- `requiredAdminPermission`, for the segments of the normalized path. -/
def permissionOf (method : Method) (ss : List (List Char)) : Option String :=
  if test "/metrics" ss then some "metrics.read"
  else if test "/v1/realms" ss then some "realms.read"
  else if test "/v1/realms/:realm/configuration" ss then some "configuration.read"
  else if test "/v1/realms/:realm/audit" ss then some "audit.read"
  else if test "/v1/realms/:realm/client-registration-tokens" ss then some "clients.register"
  else if test "/v1/realms/:realm/users/:id/federated-identities" ss then
    if method = .get then some "users.read" else some "federation.manage"
  else if testPasskeys ss ||
      test "/v1/realms/:realm/users/:id/mfa/totp" ss ||
      test "/v1/realms/:realm/users/:id/mfa/totp/confirm" ss ||
      test "/v1/realms/:realm/users/:id/password" ss ||
      test "/v1/realms/:realm/users/:id/unlock" ss then
    some "credentials.manage"
  else if test "/v1/realms/:realm/users/:id/sessions/revoke" ss then some "sessions.revoke"
  else if test "/v1/realms/:realm/users/:id" ss && method = .delete then some "users.delete"
  else if test "/v1/realms/:realm/users" ss || test "/v1/realms/:realm/users/:id" ss then
    if method = .get then some "users.read" else some "users.write"
  else none

def requiredAdminPermission (method : Method) (path : List Char) : Option String :=
  permissionOf method (segments (normalizedPath path))

/-- A console session, with the value of its cookie. -/
structure Session where
  sessionValue : String
  authentication : Authentication
  deriving DecidableEq

/-- `verifyCsrf`. The body has not been read when it is called. -/
def verifyCsrf (cfg : Settings) (req : Request) (session : Session) : Bool :=
  req.origin = some cfg.publicUrl &&
    match req.csrf with
    | none => false
    | some provided => provided.length ≤ 256 && provided = cfg.csrfFor session.sessionValue

inductive Access
  | bearer
  | session (session : Session)
  deriving DecidableEq

/-- The check of a request, where `session` is what `authenticate` has returned. -/
def authorize (cfg : Settings) (req : Request) (session : Option Session) :
    Except Problem Access :=
  if req.limited then
    .error ⟨429, "Too many requests", "Wait before retrying the administration API."⟩
  else if req.bearer then .ok .bearer
  else
    match session with
    | none =>
      .error ⟨401, "Unauthorized",
        "A valid AuthMe administration token or console session is required."⟩
    | some session =>
      let requestedRealm := requestedAdminRealm req.path.toList
      if requestedRealm ≠ none ∧ requestedRealm ≠ some session.authentication.realm then
        .error ⟨403, "Realm access denied", "Switch to this realm before administering it."⟩
      else
        match requiredAdminPermission req.method req.path.toList with
        | none =>
          .error ⟨403, "Permission denied",
            "This administration route is not available to console sessions."⟩
        | some permission =>
          if !hasAdminPermission session.authentication.grant permission then
            .error ⟨403, "Permission denied",
              "This administrator grant does not include " ++ permission ++ "."⟩
          else if req.method.isSafe then .ok (.session session)
          else if !req.isJson then
            .error ⟨415, "Unsupported media type", "Console mutations require application/json."⟩
          else if !verifyCsrf cfg req session then
            .error ⟨403, "Invalid CSRF token", "Reload the console and try again."⟩
          else if !hasRecentAdminAuthentication session.authentication.session req.now then
            .error ⟨403, "Recent administrator authentication required",
              "Sign out and complete a fresh administrator sign-in before making security changes."⟩
          else .ok (.session session)

/-! ## The layers of the router -/

structure Route where
  method : Method
  path : String
  deriving DecidableEq

/-- The routes before `router.use('/v1/realms/:realm', …)`. -/
def earlyRoutes : List Route :=
  [⟨.get, "/metrics"⟩,
    ⟨.get, "/v1/realms"⟩,
    ⟨.get, "/v1/realms/:realm/configuration"⟩,
    ⟨.post, "/v1/realms/:realm/client-registration-tokens"⟩]

def lateRoutes : List Route :=
  [⟨.get, "/v1/realms/:realm/users"⟩,
    ⟨.post, "/v1/realms/:realm/users"⟩,
    ⟨.get, "/v1/realms/:realm/users/:id"⟩,
    ⟨.get, "/v1/realms/:realm/users/:id/federated-identities"⟩,
    ⟨.post, "/v1/realms/:realm/users/:id/federated-identities"⟩,
    ⟨.delete, "/v1/realms/:realm/users/:id/federated-identities"⟩,
    ⟨.get, "/v1/realms/:realm/users/:id/passkeys"⟩,
    ⟨.post, "/v1/realms/:realm/users/:id/passkeys/registration/options"⟩,
    ⟨.post, "/v1/realms/:realm/users/:id/passkeys/registration/verify"⟩,
    ⟨.delete, "/v1/realms/:realm/users/:id/passkeys/:credentialId"⟩,
    ⟨.patch, "/v1/realms/:realm/users/:id"⟩,
    ⟨.put, "/v1/realms/:realm/users/:id/password"⟩,
    ⟨.post, "/v1/realms/:realm/users/:id/unlock"⟩,
    ⟨.post, "/v1/realms/:realm/users/:id/mfa/totp"⟩,
    ⟨.post, "/v1/realms/:realm/users/:id/mfa/totp/confirm"⟩,
    ⟨.delete, "/v1/realms/:realm/users/:id/mfa/totp"⟩,
    ⟨.post, "/v1/realms/:realm/users/:id/sessions/revoke"⟩,
    ⟨.delete, "/v1/realms/:realm/users/:id"⟩,
    ⟨.get, "/v1/realms/:realm/audit"⟩]

def routes : List Route := earlyRoutes ++ lateRoutes

/-- `route._handlesMethod`: `HEAD` is served by the handler of `GET`. -/
def Route.handles (r : Route) (method : Method) : Bool :=
  r.method = method || (method = .head && r.method = .get)

inductive Layer
  | route (r : Route)
  | realmGuard
  | targetGuard
  deriving DecidableEq

def layers : List Layer :=
  earlyRoutes.map .route ++ [.realmGuard, .targetGuard] ++ lateRoutes.map .route

def Layer.match (path : List Char) : Layer → Option (List (List Char × List Char))
  | .route r => expressMatch (pattern r.path) path
  | .realmGuard => expressPrefix (pattern "/v1/realms/:realm") path
  | .targetGuard => expressPrefix (pattern "/v1/realms/:realm/users/:id") path

/-- `req.params`. -/
abbrev Params := List (String × String)

def decodeParam (capture : List Char × List Char) : Option (String × String) :=
  (decodeURIComponent capture.2).map fun value => (String.ofList capture.1, value)

/-- `none` is the `URIError` that ends in status 400. -/
def decodeParams : List (List Char × List Char) → Option Params
  | [] => some []
  | capture :: captures => do return (← decodeParam capture) :: (← decodeParams captures)

/-- `z.string().min(1).max(2048).regex(/^[A-Za-z0-9_-]+$/)`. -/
def isBase64url (value : String) : Bool :=
  1 ≤ value.length && value.length ≤ 2048 &&
    value.toList.all fun c => ('A' ≤ c && c ≤ 'Z') || ('a' ≤ c && c ≤ 'z') ||
      ('0' ≤ c && c ≤ '9') || c = '_' || c = '-'

/-- The callbacks of `router.param`. -/
def checkParam (cfg : Settings) (param : String × String) : Option Problem :=
  if param.1 = "id" ∧ !cfg.isUserId param.2 then
    some ⟨400, "Invalid user identifier", "User identifiers must be UUIDs."⟩
  else if param.1 = "credentialId" ∧ !isBase64url param.2 then
    some ⟨400, "Invalid passkey identifier", "Passkey identifiers must be base64url values."⟩
  else none

def checkParams (cfg : Settings) (params : Params) : Option Problem :=
  params.findSome? (checkParam cfg)

/-- `router.use('/v1/realms/:realm', …)`. -/
def guardRealm (cfg : Settings) (params : Params) : Option Problem :=
  if cfg.realms.contains ((params.lookup "realm").getD "") then none
  else some ⟨404, "Realm not found", "The requested realm does not exist."⟩

/-- What the store answers to `findAdminGrant(realm, userId)`. -/
abbrev Grants := String → String → Option AdminGrant

def Access.has (permission : String) : Access → Bool
  | .bearer => false
  | .session s => hasAdminPermission s.authentication.grant permission

/-- `router.use('/v1/realms/:realm/users/:id', …)`. -/
def guardTarget (findAdminGrant : Grants) (method : Method) (access : Access) (params : Params) :
    Option Problem :=
  if method.isSafe ∨ access = .bearer then none
  else
    let targetGrant :=
      findAdminGrant ((params.lookup "realm").getD "") ((params.lookup "id").getD "")
    if targetGrant = none ∨ access.has "administrators.manage" then none
    else
      some ⟨403, "Administrator account protection",
        "Changing an account with an administrator grant requires administrators.manage."⟩

inductive Outcome
  | problem (p : Problem)
  | status (code : Nat)
  | unhandled
  | handler (r : Route) (params : Params)
  deriving DecidableEq

/-- Express tries the layers in turn. `failed` says that a parameter of an earlier layer
could not be decoded: no route is entered after that. -/
def walk (cfg : Settings) (findAdminGrant : Grants) (req : Request) (access : Access) :
    List Layer → Bool → Outcome
  | [], failed => if failed then .status 400 else .unhandled
  | layer :: rest, failed =>
    let next := walk cfg findAdminGrant req access rest
    match layer.match req.path.toList with
    | none => next failed
    | some captures =>
      match decodeParams captures with
      | none => next true
      | some params =>
        match layer with
        | .route r =>
          if failed ∨ (!r.handles req.method ∧ req.method ≠ .head) then next failed
          else
            match checkParams cfg params with
            | some p => .problem p
            | none => if r.handles req.method then .handler r params else next failed
        | .realmGuard =>
          if failed then next failed
          else
            match guardRealm cfg params with
            | some p => .problem p
            | none => next failed
        | .targetGuard =>
          match checkParams cfg params with
          | some p => .problem p
          | none =>
            if failed then next failed
            else
              match guardTarget findAdminGrant req.method access params with
              | some p => .problem p
              | none => next failed

/-- The router, where `session` is what `authenticate` has returned. -/
def serve (cfg : Settings) (findAdminGrant : Grants) (req : Request) (session : Option Session) :
    Outcome :=
  match authorize cfg req session with
  | .error p => .problem p
  | .ok access =>
    match req.unreadable with
    | some code => .status code
    | none => walk cfg findAdminGrant req access layers false

end AuthMe.Admin.Api

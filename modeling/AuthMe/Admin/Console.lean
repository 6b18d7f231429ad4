import AuthMe.Service.Pool
import AuthMe.Store.Admin

/-!
# The administration console: sessions

`authenticate`, the session part of the login callback and `logout` of
`src/src/routes/admin-console.js`, as programs over the atomic operations of the store,
and the service that they form with everything else that writes the same tables.

The callback is modelled from the point where the ID token has been verified; the claims
of the token are its arguments. `randomBytes` never returns a value whose digest was
issued before.
-/

namespace AuthMe.Admin

open Service Store

/-- The configuration of the console. `sessionDigest` is the keyed digest under which a
session is stored. -/
structure Config where
  realms : List String
  sessionTtl : Int
  devMode : Bool
  backend : Backend
  sessionDigest : String → String

/-- `Math.min(config.sessionTtl, 28_800)`, in seconds. -/
def Config.ttl (cfg : Config) : Int := min cfg.sessionTtl 28800

def Config.idleTtl (cfg : Config) : Int := min cfg.ttl 1800

/-! ## Operations -/

inductive Op
  | now
  | randomBytes
  | findAdminSession (idDigest : String)
  | findUserById (realm id : String)
  | findAdminGrant (realm userId : String)
  | createAdminSession (session : AdminSession)
  | touchAdminSession (idDigest : String) (idleExpiresAt : Int)
  | deleteAdminSession (idDigest : String)
  | writeAudit
  deriving DecidableEq

/-- What an operation answers; `writeAudit` answers whether it succeeded. -/
def Op.Res : Op → Type
  | .now => Instant
  | .randomBytes => String
  | .findAdminSession _ | .createAdminSession _ | .touchAdminSession .. => Option AdminSession
  | .findUserById .. => Option User
  | .findAdminGrant .. => Option AdminGrant
  | .deleteAdminSession _ => Unit
  | .writeAudit => Bool

abbrev operations : Interface := ⟨Op, Op.Res⟩

abbrev Console := Program operations

namespace Console

def call (op : Op) : Console op.Res := Program.perform (I := operations) op

def now : Console Instant := call .now

def randomBytes : Console String := call .randomBytes

def findAdminSession (idDigest : String) : Console (Option AdminSession) :=
  call (.findAdminSession idDigest)

def findUserById (realm id : String) : Console (Option User) :=
  call (.findUserById realm id)

def findAdminGrant (realm userId : String) : Console (Option AdminGrant) :=
  call (.findAdminGrant realm userId)

def createAdminSession (session : AdminSession) : Console (Option AdminSession) :=
  call (.createAdminSession session)

def touchAdminSession (idDigest : String) (idleExpiresAt : Int) :
    Console (Option AdminSession) :=
  call (.touchAdminSession idDigest idleExpiresAt)

def deleteAdminSession (idDigest : String) : Console Unit :=
  call (.deleteAdminSession idDigest)

def writeAudit : Console Bool := call .writeAudit

end Console

/-! ## The routes -/

open Console

/-- `/^[A-Za-z0-9_-]{43}$/`. -/
def isSessionValue (value : String) : Bool :=
  value.toList.length = 43 &&
    value.toList.all fun c => ('A' ≤ c && c ≤ 'Z') || ('a' ≤ c && c ≤ 'z') ||
      ('0' ≤ c && c ≤ '9') || c = '_' || c = '-'

structure Authentication where
  realm : String
  session : AdminSession
  sessionDigest : String
  user : User
  grant : AdminGrant
  deriving DecidableEq

/-- The session, the user and the grant belong together, and both are enabled. -/
def upToDate (session : AdminSession) (user : User) (grant : AdminGrant) : Bool :=
  user.enabled && user.securityVersion = session.securityVersion &&
    grant.enabled && grant.version = session.grantVersion

/-- `authenticate`, for the value of the session cookie. -/
def authenticate (cfg : Config) (sessionValue : Option String) :
    Console (Option Authentication) := do
  match sessionValue.filter isSessionValue with
  | none => return none
  | some value =>
    let digest := cfg.sessionDigest value
    let found ← findAdminSession digest
    let now ← now
    match found with
    | none => return none
    | some session =>
      if cfg.realms.contains session.realm ∧ now.ms < session.expiresAt ∧
          now.ms < session.idleExpiresAt then
        let user ← findUserById session.realm session.userId
        let grant ← findAdminGrant session.realm session.userId
        match user, grant with
        | some user, some grant =>
          if upToDate session user grant then
            if 60000 ≤ now.ms - session.lastSeenAt then
              let idleExpiresAt := min (now.ms + cfg.idleTtl * 1000) session.expiresAt
              let touched ← touchAdminSession digest idleExpiresAt
              return some ⟨session.realm, touched.getD session, digest, user, grant⟩
            else return some ⟨session.realm, session, digest, user, grant⟩
          else
            deleteAdminSession digest
            return none
        | _, _ =>
          deleteAdminSession digest
          return none
      else
        deleteAdminSession digest
        return none

def hasStrongAdminAuthentication (amr : List String) : Bool :=
  amr.contains "passkey" || amr.contains "webauthn" ||
    (amr.contains "pwd" || amr.contains "ldap" || amr.contains "federated") &&
      (amr.contains "otp" || amr.contains "recovery")

/-- The claims of a verified ID token. `authTime` is `none` when it is not an integer. -/
structure Claims where
  sub : String
  authTime : Option Int
  amr : List String
  deriving DecidableEq

/-- `authenticationAge >= -30 && authenticationAge <= 930`, in seconds. -/
def isRecent (now : Instant) (authTime : Int) : Bool :=
  -30 ≤ now.seconds - authTime && now.seconds - authTime ≤ 930

/-- The session that the callback creates. -/
def newSession (cfg : Config) (realm : String) (user : User) (grant : AdminGrant)
    (authTime : Int) (value : String) (now seen : Instant) : AdminSession where
  idDigest := cfg.sessionDigest value
  realm := realm
  userId := user.id
  grantVersion := grant.version
  securityVersion := user.securityVersion
  createdAt := authTime * 1000
  lastSeenAt := seen.ms
  idleExpiresAt := (now.seconds + cfg.idleTtl) * 1000
  expiresAt := (now.seconds + cfg.ttl) * 1000

/-- `if (createdSessionDigest) await store.deleteAdminSession(…)`, and no login. -/
def abandon (digest : String) : Console (Option String) := do
  deleteAdminSession digest
  return none

/-- The callback of a login in the realm. It returns the new value of the session cookie,
or `none` when it fails. -/
def callback (cfg : Config) (realm : String) (claims : Claims) (previous : Option String) :
    Console (Option String) := do
  let found ← findUserById realm claims.sub
  match found with
  | none => return none
  | some user =>
    let grant ← findAdminGrant realm user.id
    let checked ← now
    match grant, claims.authTime with
    | some grant, some authTime =>
      if user.enabled && grant.enabled && isRecent checked authTime &&
          (cfg.devMode || hasStrongAdminAuthentication claims.amr) then
        let now ← Console.now
        let value ← randomBytes
        let seen ← Console.now
        let digest := cfg.sessionDigest value
        let session ← createAdminSession (newSession cfg realm user grant authTime value now seen)
        match session with
        | none => abandon digest
        | some _ =>
          let written ← writeAudit
          if written then
            match previous.filter isSessionValue with
            | none => return some value
            | some old =>
              if cfg.sessionDigest old = digest then return some value
              else
                deleteAdminSession (cfg.sessionDigest old)
                return some value
          else abandon digest
      else return none
    | _, _ => return none

/-- `POST /ui/logout`, for the cookie and the outcome of the CSRF check. -/
def logout (cfg : Config) (sessionValue : Option String) (csrf : Bool) : Console Unit := do
  let authentication ← authenticate cfg sessionValue
  match authentication with
  | none => return ()
  | some authentication =>
    if csrf then
      deleteAdminSession authentication.sessionDigest
      let _ ← writeAudit
      return ()
    else return ()

/-! ## The service -/

inductive Request
  | authenticate (sessionValue : Option String)
  | callback (realm : String) (claims : Claims) (previous : Option String)
  | logout (sessionValue : Option String) (csrf : Bool)
  deriving DecidableEq

inductive Reply
  | authentication (result : Option Authentication)
  | login (sessionValue : Option String)
  | logout
  deriving DecidableEq

def program (cfg : Config) : Request → Console Reply
  | .authenticate value => do return .authentication (← authenticate cfg value)
  | .callback realm claims previous => do return .login (← callback cfg realm claims previous)
  | .logout value csrf => do
    logout cfg value csrf
    return .logout

/-- The store: the clock, the tables, and the digests that `randomBytes` has led to. -/
structure State where
  clock : Instant
  tables : AdminTables
  issued : List String

/-- What is not decided by the store: the bytes of `randomBytes`, and whether the audit
log can be written. -/
inductive Choice
  | none
  | bytes (value : String)
  | failure
  deriving DecidableEq

def State.after (s : State) {α : Type} (r : Option (AdminTables × α)) : Option α × State :=
  match r with
  | .none => (.none, s)
  | some (tables, a) => (some a, { s with tables := tables })

def answer (cfg : Config) (s : State) (choice : Choice) :
    (op : Op) → Option (op.Res × State)
  | .now => some (s.clock, s)
  | .randomBytes =>
    match choice with
    | .bytes value =>
      if isSessionValue value ∧ cfg.sessionDigest value ∉ s.issued then
        some (value, { s with issued := cfg.sessionDigest value :: s.issued })
      else none
    | _ => none
  | .findAdminSession idDigest => some (s.tables.findAdminSession idDigest, s)
  | .findUserById realm id => some (s.tables.findUserById realm id, s)
  | .findAdminGrant realm userId => some (s.tables.findAdminGrant realm userId, s)
  | .createAdminSession session =>
    some (s.after (s.tables.createAdminSession cfg.backend session))
  | .touchAdminSession idDigest idleExpiresAt =>
    some (s.after (s.tables.touchAdminSession cfg.backend s.clock idDigest idleExpiresAt))
  | .deleteAdminSession idDigest =>
    some ((), { s with tables := s.tables.deleteAdminSession idDigest })
  | .writeAudit => some ((choice != .failure : Bool), s)

/-- What else happens to the tables: time passes, users are created, updated, restored and
deleted, and grants are written, revoked and restored. -/
inductive Change
  | elapse (clock : Instant)
  | writeUser (user : User)
  | bumpSecurityVersion (realm id : String)
  | deleteUser (realm id : String)
  | upsertAdminGrant (realm userId : String) (permissions : List String) (enabled : Bool)
  | revokeAdminGrant (realm userId : String)
  | restoreAdminGrant (realm userId : String) (grant : AdminGrant)
  | cleanupExpiredAdminSessions (chosen : List String)
  deriving DecidableEq

def State.withTables (s : State) (t : Option AdminTables) : Option State :=
  t.map fun tables => { s with tables := tables }

def change (s : State) : Change → Option State
  | .elapse clock => if s.clock.ms ≤ clock.ms then some { s with clock := clock } else none
  | .writeUser user =>
    s.withTables (some { s.tables with users := s.tables.users.set (user.realm, user.id) user })
  | .bumpSecurityVersion realm id =>
    s.withTables (some { s.tables with
      users := s.tables.users.modify (realm, id) User.bumpSecurityVersion })
  | .deleteUser realm id => s.withTables (some (s.tables.deleteUser realm id))
  | .upsertAdminGrant realm userId permissions enabled =>
    s.withTables (s.tables.upsertAdminGrant realm userId permissions enabled)
  | .revokeAdminGrant realm userId => s.withTables (s.tables.revokeAdminGrant realm userId)
  | .restoreAdminGrant realm userId grant =>
    s.withTables (some { s.tables with grants := s.tables.grants.set (realm, userId) grant })
  | .cleanupExpiredAdminSessions chosen =>
    s.withTables (some (s.tables.cleanupExpiredAdminSessions s.clock chosen))

/-- The console of a configuration. -/
def console (cfg : Config) : Service operations State Request Reply Choice Change where
  program := program cfg
  answer := answer cfg
  change := change

/-- A store without sessions. -/
def State.initial (clock : Instant) (users : Users) (grants : OrderedMap UserKey AdminGrant) :
    State :=
  ⟨clock, ⟨users, grants, .empty⟩, []⟩

end AuthMe.Admin

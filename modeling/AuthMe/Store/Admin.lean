import AuthMe.Store.User
import AuthMe.Text

/-!
# Administrator grants and sessions

The tables `admin_grants` and `admin_sessions` of the identity store
(`src/src/repositories/identity-store.js`, `src/migrations/005_admin_console.sql`), the
permissions of `src/src/security/admin-permissions.js`, and the operations on them, each
of which is atomic. The two stores differ in `createAdminSession`, where PostgreSQL checks
the order of the expiry times, and in `touchAdminSession`, where PostgreSQL asks that the
session has not expired.
-/

namespace AuthMe.Store

/-! ## Permissions -/

/-- `ADMIN_PERMISSIONS`. -/
def adminPermissions : List String :=
  ["realms.read", "configuration.read", "users.read", "users.write", "users.delete",
    "credentials.manage", "sessions.revoke", "federation.manage", "clients.register",
    "administrators.manage", "audit.read", "metrics.read"]

/-- `none` is the `TypeError`. -/
def normalizeAdminPermissions (permissions : List String) : Option (List String) :=
  if permissions.length = 0 ∨ 64 < permissions.length then none
  else
    let normalized := (permissions.map Text.trim).eraseDups
    if "*" ∈ normalized then some ["*"]
    else if normalized.all adminPermissions.contains then some normalized
    else none

structure AdminGrant where
  permissions : List String
  enabled : Bool
  version : Nat
  deriving DecidableEq

/-- `grant.enabled && (grant.permissions.includes('*') || …includes(permission))`. -/
def hasAdminPermission (grant : AdminGrant) (permission : String) : Bool :=
  grant.enabled && (grant.permissions.contains "*" || grant.permissions.contains permission)

/-! ## The tables -/

structure AdminSession where
  idDigest : String
  realm : String
  userId : String
  grantVersion : Nat
  securityVersion : Nat
  createdAt : Int
  lastSeenAt : Int
  idleExpiresAt : Int
  expiresAt : Int
  deriving DecidableEq

inductive Backend
  | memory
  | postgres
  deriving DecidableEq

structure AdminTables where
  users : Users
  grants : OrderedMap UserKey AdminGrant
  sessions : OrderedMap String AdminSession

namespace AdminTables

variable (t : AdminTables)

def findUserById (realm id : String) : Option User := t.users.get? (realm, id)

def findAdminGrant (realm userId : String) : Option AdminGrant := t.grants.get? (realm, userId)

def findAdminSession (idDigest : String) : Option AdminSession := t.sessions.get? idDigest

/-- A grant that is written again gets the next version. -/
def upsertAdminGrant (realm userId : String) (permissions : List String) (enabled : Bool) :
    Option AdminTables :=
  match t.users.get? (realm, userId), normalizeAdminPermissions permissions with
  | some _, some normalized =>
    let version := match t.grants.get? (realm, userId) with
      | none => 1
      | some current => current.version + 1
    some { t with grants := t.grants.set (realm, userId) ⟨normalized, enabled, version⟩ }
  | _, _ => none

def revokeAdminGrant (realm userId : String) : Option AdminTables :=
  match t.grants.get? (realm, userId) with
  | none => none
  | some current =>
    let grant := { current with enabled := false, version := current.version + 1 }
    some { t with grants := t.grants.set (realm, userId) grant }

/-- The constraint `admin_sessions_expiry_order` of PostgreSQL. -/
def expiryOrder (backend : Backend) (session : AdminSession) : Bool :=
  match backend with
  | .memory => true
  | .postgres => session.createdAt < session.idleExpiresAt && session.createdAt < session.expiresAt

/-- `none` when the user is gone, the digest is taken or the database refuses the row. -/
def createAdminSession (backend : Backend) (session : AdminSession) :
    Option (AdminTables × AdminSession) :=
  match t.users.get? (session.realm, session.userId), t.sessions.get? session.idDigest with
  | some _, none =>
    if expiryOrder backend session then
      some ({ t with sessions := t.sessions.set session.idDigest session }, session)
    else none
  | _, _ => none

/-- `none` when there is no session, or, on PostgreSQL, when it has expired. -/
def touchAdminSession (backend : Backend) (now : Instant) (idDigest : String)
    (idleExpiresAt : Int) : Option (AdminTables × AdminSession) :=
  match t.sessions.get? idDigest with
  | none => none
  | some session =>
    if backend = .memory ∨ now.ms < session.expiresAt ∧ now.ms < session.idleExpiresAt then
      let touched := { session with lastSeenAt := now.ms, idleExpiresAt := idleExpiresAt }
      some ({ t with sessions := t.sessions.set idDigest touched }, touched)
    else none

def deleteAdminSession (idDigest : String) : AdminTables :=
  { t with sessions := t.sessions.erase idDigest }

/-- `cleanupExpiredAdminSessions` deletes expired sessions; which ones, within its limit,
is the choice of the store. -/
def cleanupExpiredAdminSessions (now : Instant) (chosen : List String) : AdminTables :=
  { t with
    sessions := t.sessions.filter fun digest session =>
      !(chosen.contains digest &&
        (session.expiresAt ≤ now.ms || session.idleExpiresAt ≤ now.ms)) }

/-- The grant and the sessions of a user go with it. -/
def deleteUser (realm id : String) : AdminTables where
  users := t.users.erase (realm, id)
  grants := t.grants.erase (realm, id)
  sessions := t.sessions.filter fun _ session => !(session.realm = realm && session.userId = id)

variable {t}

theorem createAdminSession_eq_some {backend : Backend} {session created : AdminSession}
    {t' : AdminTables} (h : t.createAdminSession backend session = some (t', created)) :
    created = session ∧ t.sessions.get? session.idDigest = none ∧
      t' = { t with sessions := t.sessions.set session.idDigest session } := by
  unfold createAdminSession at h
  split at h
  · rename_i hnone
    split at h
    · cases h
      exact ⟨rfl, hnone, rfl⟩
    · cases h
  · cases h

theorem touchAdminSession_eq_some {backend : Backend} {now : Instant} {idDigest : String}
    {idleExpiresAt : Int} {touched : AdminSession} {t' : AdminTables}
    (h : t.touchAdminSession backend now idDigest idleExpiresAt = some (t', touched)) :
    ∃ session, t.sessions.get? idDigest = some session ∧
      touched = { session with lastSeenAt := now.ms, idleExpiresAt := idleExpiresAt } ∧
      t' = { t with sessions := t.sessions.set idDigest touched } := by
  unfold touchAdminSession at h
  split at h
  · cases h
  · rename_i session hsession
    split at h
    · cases h
      exact ⟨session, hsession, rfl, rfl⟩
    · cases h

end AdminTables

end AuthMe.Store

import Mathlib.Data.List.Sort
import AuthMe.Collections.Table
import AuthMe.Adapters.Record
import AuthMe.DataLayer.Development

/-!
# The tables of the development data layer

`MemoryIdentityStore` (`src/src/repositories/identity-store.js`) with all of its tables and
columns, the artifacts of the adapters beside it, and the two operations of `src/src/db.js` that
take a change back when an error comes after it: `mutateAccountSecurity` and `deleteAccount`. No
other call runs in between, so each of them is a function of the tables.

A callback is the list of the methods that it calls, with their arguments, and how it ends. The
audit log is left out, as nothing takes an event back.
-/

namespace AuthMe.DataLayer.Tables

open Store

/-! ## Rows -/

structure Account extends User where
  clientRoles : List (String × List String) := []
  createdAt : Int
  updatedAt : Int
  lastLoginAt : Option Int := none
  deriving DecidableEq

structure Grant extends AdminGrant where
  realm : String
  userId : String
  createdAt : Int
  updatedAt : Int
  deriving DecidableEq

structure Passkey extends Credential where
  transports : List String
  aaguid : String
  name : String
  createdAt : Int
  updatedAt : Int
  lastUsedAt : Option Int
  deriving DecidableEq

structure Ceremony extends Challenge where
  createdAt : Int
  deriving DecidableEq

def Account.key (a : Account) : UserKey := (a.realm, a.id)

def Grant.key (g : Grant) : UserKey := (g.realm, g.userId)

def Passkey.key (c : Passkey) : String × String := (c.realm, c.id)

def Ceremony.key (c : Ceremony) : String × String := (c.realm, c.id)

/-- The passkey is one of the account. -/
def Passkey.belongs (c : Passkey) (key : UserKey) : Bool := c.realm = key.1 && c.userId = key.2

def Ceremony.belongs (c : Ceremony) (key : UserKey) : Bool :=
  c.realm = key.1 && c.userId = some key.2

def sessionBelongs (s : AdminSession) (key : UserKey) : Bool :=
  s.realm = key.1 && s.userId = key.2

/-- `normalizeUser`. -/
def normalizeUser (cfg : Config) (a : Account) : Account :=
  { a with toUser := DataLayer.normalizeUser cfg a.toUser }

/-- `normalizeAdminGrant`; an error is the message of the exception. -/
def normalizeAdminGrant (g : Grant) : Except String Grant :=
  if ¬isSafeInteger g.version ∨ g.version < 1 then .error "Administrator grant version is invalid"
  else
    match normalizeAdminPermissions g.permissions with
    | some permissions => .ok { g with permissions := permissions }
    | none =>
      if g.permissions.length = 0 ∨ 64 < g.permissions.length then
        .error "Administrator permissions must be a non-empty array with at most 64 entries"
      else .error "Administrator permissions contain an unsupported value"

def isBase64Url (c : Char) : Bool :=
  c.isDigit || ('A' ≤ c && c ≤ 'Z') || ('a' ≤ c && c ≤ 'z') || c == '_' || c == '-'

/-- `Number.isFinite(new Date(ms).getTime())`. -/
def isDate (ms : Int) : Bool := -8640000000000000 ≤ ms && ms ≤ 8640000000000000

/-- `normalizeAdminSession`, which checks and changes nothing. -/
def normalizeAdminSession (s : AdminSession) : Except String AdminSession :=
  if s.idDigest.toList.length ≠ 43 ∨ ¬s.idDigest.toList.all isBase64Url then
    .error "Administrator session digest is invalid"
  else if ¬isSafeInteger s.grantVersion ∨ s.grantVersion < 1 ∨ ¬isSafeInteger s.securityVersion then
    .error "Administrator session version snapshot is invalid"
  else if ¬isDate s.expiresAt ∨ ¬isDate s.idleExpiresAt then
    .error "Administrator session expiry is invalid"
  else .ok s

/-- `normalizeWebAuthnCredential`; the type of the counter makes its check. -/
def normalizeWebAuthnCredential (c : Passkey) : Passkey :=
  { c with transports := c.transports.eraseDups, name := orElse c.name "Passkey" }

/-! ## The store -/

structure State where
  users : Table UserKey Account Account.key
  adminGrants : Table UserKey Grant Grant.key
  adminSessions : Table String AdminSession AdminSession.idDigest
  webauthnCredentials : Table (String × String) Passkey Passkey.key
  webauthnChallenges : Table (String × String) Ceremony Ceremony.key
  records : OrderedMap Adapters.Key Adapters.Payload

def State.empty : State := ⟨.empty, .empty, .empty, .empty, .empty, .empty⟩

/-- A patch of `updateUser`, with the field that the console does not send. -/
structure Change extends Patch where
  clientRoles : Option (List (String × List String)) := none
  deriving DecidableEq

/-- The methods that change one row of `users`. -/
inductive RowCall
  | updateUser (change : Change)
  | rehashPasswordIfCurrent (expectedHash passwordHash : String)
  | recordLoginFailure
  | recordLoginSuccess
  | unlockUser
  | bumpSecurityVersion
  | factor (call : Factor.Call)
  deriving DecidableEq

/-- The methods of the store. A row that a method creates has the identifier and the times that
the method gives it. -/
inductive Call
  | createUser (a : Account)
  | row (key : UserKey) (call : RowCall)
  | deleteUser (key : UserKey)
  | restoreUser (a : Account)
  | upsertAdminGrant (key : UserKey) (permissions : List String) (enabled : Bool)
  | revokeAdminGrant (key : UserKey)
  | restoreAdminGrant (g : Grant)
  | createAdminSession (s : AdminSession)
  | touchAdminSession (idDigest : String) (idleExpiresAt : Int)
  | deleteAdminSession (idDigest : String)
  | cleanupExpiredAdminSessions (limit : Nat)
  | createWebAuthnChallenge (c : Ceremony)
  | consumeWebAuthnChallenge (q : ChallengeQuery)
  | cleanupExpiredWebAuthnChallenges (limit : Nat)
  | createWebAuthnCredential (c : Passkey)
  | updateWebAuthnCredentialCounter (realm id : String) (expectedCounter : Nat) (v : Verification)
  | deleteWebAuthnCredential (key : UserKey) (credentialId : String)
  /-- `findUserById` and the other methods that read, and `writeAudit`. -/
  | read
  deriving DecidableEq

/-- Another user of the realm logs in with the mail address of the change. -/
def emailTaken (cfg : Config) (s : State) (key : UserKey) (c : Change) : Bool :=
  match c.email with
  | none => false
  | some email =>
    let email := cfg.lowerCase (Text.trim email)
    s.users.rows.any fun u => u.realm = key.1 && u.id ≠ key.2 &&
      (u.email = email || cfg.lowerCase u.username = email)

/-- A user of the realm logs in with the name or the mail address of the user. -/
def loginTaken (cfg : Config) (s : State) (a : Account) : Bool :=
  s.users.rows.any fun u => u.realm = a.realm && [cfg.lowerCase u.username, u.email].any fun login =>
    login = cfg.lowerCase a.username || login = a.email

/-- The row after a method; `none` when the method throws or answers `false`. -/
def RowCall.apply (cfg : Config) (now : Instant) (s : State) (key : UserKey) (a : Account) :
    RowCall → Option Account
  | .updateUser c =>
    if emailTaken cfg s key c then none
    else some { a with
      toUser := c.toPatch.apply cfg a.toUser
      clientRoles := c.clientRoles.getD a.clientRoles
      updatedAt := now.ms }
  | .rehashPasswordIfCurrent expectedHash passwordHash =>
    (a.toUser.rehashPasswordIfCurrent expectedHash passwordHash).map fun u =>
      { a with toUser := u, updatedAt := now.ms }
  | .recordLoginFailure =>
    if a.isLocked now then none
    else some { a with toUser := a.toUser.recordLoginFailure now, updatedAt := now.ms }
  | .recordLoginSuccess =>
    some { a with
      toUser := a.toUser.recordLoginSuccess
      lastLoginAt := some now.ms
      updatedAt := now.ms }
  | .unlockUser => some { a with toUser := a.toUser.unlock, updatedAt := now.ms }
  | .bumpSecurityVersion => some { a with toUser := a.toUser.bumpSecurityVersion, updatedAt := now.ms }
  | .factor call =>
    (call.apply .memory now a.toUser).map fun u => { a with toUser := u, updatedAt := now.ms }

namespace State

def row (cfg : Config) (now : Instant) (s : State) (key : UserKey) (call : RowCall) : State :=
  match (s.users.get? key).bind (call.apply cfg now s key) with
  | none => s
  | some a => { s with users := s.users.insert a }

/-- An error is the message of the exception. -/
def createUser (cfg : Config) (s : State) (a : Account) : Except String State :=
  let user := normalizeUser cfg a
  if (s.users.get? user.key).isSome then .error "A user with that id already exists"
  else if loginTaken cfg s user then .error "A user with that username or email already exists"
  else .ok { s with users := s.users.insert user }

/-- Everything else that belongs to a user goes with it. -/
def deleteUser (s : State) (key : UserKey) : Option (Account × State) :=
  (s.users.get? key).map fun user => (user, { s with
    users := s.users.erase key
    adminGrants := s.adminGrants.erase key
    adminSessions := s.adminSessions.filter fun session => !sessionBelongs session key
    webauthnCredentials := s.webauthnCredentials.filter fun c => !c.belongs key
    webauthnChallenges := s.webauthnChallenges.filter fun c => !c.belongs key })

def restoreUser (cfg : Config) (s : State) (a : Account) : State :=
  { s with users := s.users.insert (normalizeUser cfg a) }

def setAdminGrant (s : State) (g : Grant) : Except String State :=
  match normalizeAdminGrant g with
  | .error message => .error message
  | .ok g => .ok { s with adminGrants := s.adminGrants.insert g }

def upsertAdminGrant (now : Instant) (s : State) (key : UserKey) (permissions : List String)
    (enabled : Bool) : Except String State :=
  match s.users.get? key, s.adminGrants.get? key with
  | none, _ => .ok s
  | some _, none => s.setAdminGrant ⟨⟨permissions, enabled, 1⟩, key.1, key.2, now.ms, now.ms⟩
  | some _, some current =>
    s.setAdminGrant ⟨⟨permissions, enabled, current.version + 1⟩, key.1, key.2, current.createdAt,
      now.ms⟩

def revokeAdminGrant (now : Instant) (s : State) (key : UserKey) : Except String State :=
  match s.adminGrants.get? key with
  | none => .ok s
  | some current => s.upsertAdminGrant now key current.permissions false

def createAdminSession (s : State) (session : AdminSession) : Except String State :=
  match normalizeAdminSession session with
  | .error message => .error message
  | .ok session =>
    if (s.users.get? (session.realm, session.userId)).isNone ∨
        (s.adminSessions.get? session.idDigest).isSome then .ok s
    else .ok { s with adminSessions := s.adminSessions.insert session }

/-- An invalid date is refused after `lastSeenAt` was set. -/
def touchAdminSession (now : Instant) (s : State) (idDigest : String) (idleExpiresAt : Int) : State :=
  match s.adminSessions.get? idDigest with
  | none => s
  | some session => { s with
      adminSessions := s.adminSessions.insert { session with
        lastSeenAt := now.ms
        idleExpiresAt := if isDate idleExpiresAt then idleExpiresAt else session.idleExpiresAt } }

/-- The first rows that are expired, up to the limit, go. -/
def cleanup {κ ν : Type} [DecidableEq κ] {keyOf : ν → κ} (t : Table κ ν keyOf)
    (expired : ν → Bool) (limit : Nat) : Table κ ν keyOf :=
  ((t.rows.filter expired).take limit).foldl (fun t v => t.erase (keyOf v)) t

def consumeWebAuthnChallenge (now : Instant) (s : State) (q : ChallengeQuery) : State :=
  match s.webauthnChallenges.get? (q.realm, q.id) with
  | none => s
  | some c =>
    if c.answers q now then
      { s with webauthnChallenges := s.webauthnChallenges.erase (q.realm, q.id) }
    else s

def createWebAuthnCredential (s : State) (c : Passkey) : Except String State :=
  let credential := normalizeWebAuthnCredential c
  if (s.users.get? (credential.realm, credential.userId)).isNone then .ok s
  else if (s.webauthnCredentials.get? credential.key).isSome then
    .error "This passkey is already registered"
  else .ok { s with webauthnCredentials := s.webauthnCredentials.insert credential }

/-- `listWebAuthnCredentials`. -/
def listWebAuthnCredentials (s : State) (key : UserKey) : List Passkey :=
  (s.webauthnCredentials.rows.filter fun c => c.belongs key).insertionSort fun c d =>
    c.createdAt ≤ d.createdAt

def updateCounter (now : Instant) (s : State) (realm id : String) (expectedCounter : Nat)
    (v : Verification) : State :=
  match s.webauthnCredentials.get? (realm, id) with
  | none => s
  | some c =>
    match c.toCredential.updateCounter expectedCounter v with
    | none => s
    | some credential => { s with
        webauthnCredentials := s.webauthnCredentials.insert { c with
          toCredential := credential
          lastUsedAt := some now.ms
          updatedAt := now.ms } }

def deleteWebAuthnCredential (s : State) (key : UserKey) (credentialId : String) : State :=
  match s.webauthnCredentials.get? (key.1, credentialId) with
  | none => s
  | some c =>
    if c.userId = key.2 then
      { s with webauthnCredentials := s.webauthnCredentials.erase (key.1, credentialId) }
    else s

/-- The store after a method. -/
def call (cfg : Config) (now : Instant) (s : State) : Call → Except String State
  | .createUser a => s.createUser cfg a
  | .row key call => .ok (s.row cfg now key call)
  | .deleteUser key => .ok ((s.deleteUser key).elim s Prod.snd)
  | .restoreUser a => .ok (s.restoreUser cfg a)
  | .upsertAdminGrant key permissions enabled => s.upsertAdminGrant now key permissions enabled
  | .revokeAdminGrant key => s.revokeAdminGrant now key
  | .restoreAdminGrant g => s.setAdminGrant g
  | .createAdminSession session => s.createAdminSession session
  | .touchAdminSession idDigest idleExpiresAt =>
    .ok (s.touchAdminSession now idDigest idleExpiresAt)
  | .deleteAdminSession idDigest =>
    .ok { s with adminSessions := s.adminSessions.erase idDigest }
  | .cleanupExpiredAdminSessions limit =>
    .ok { s with
      adminSessions := cleanup s.adminSessions
        (fun x => x.expiresAt ≤ now.ms || x.idleExpiresAt ≤ now.ms) limit }
  | .createWebAuthnChallenge c =>
    .ok { s with webauthnChallenges := s.webauthnChallenges.insert c }
  | .consumeWebAuthnChallenge q => .ok (s.consumeWebAuthnChallenge now q)
  | .cleanupExpiredWebAuthnChallenges limit =>
    .ok { s with
      webauthnChallenges := cleanup s.webauthnChallenges (fun c => c.expiresAt ≤ now.ms) limit }
  | .createWebAuthnCredential c => s.createWebAuthnCredential c
  | .updateWebAuthnCredentialCounter realm id expectedCounter v =>
    .ok (s.updateCounter now realm id expectedCounter v)
  | .deleteWebAuthnCredential key credentialId => .ok (s.deleteWebAuthnCredential key credentialId)
  | .read => .ok s

/-- Methods one after the other. One that throws leaves the store, and the callback can go on. -/
def calls (cfg : Config) : State → List (Instant × Call) → State
  | s, [] => s
  | s, (now, c) :: rest =>
    match s.call cfg now c with
    | .error _ => calls cfg s rest
    | .ok s' => calls cfg s' rest

/-- `revokeMemoryAccount`. -/
def revokeMemoryAccount (s : State) (key : UserKey) : State :=
  let ofAccount (p : Adapters.Payload) : Bool := p.accountId = some key.2
  let grants := (s.records.entries.filter fun x =>
    x.1.realm = key.1 && x.1.model = "Grant" && ofAccount x.2).map (·.1.id)
  { s with records := s.records.filter fun k p =>
      !(k.realm = key.1 && (ofAccount p || p.grantId.any fun g => grants.contains g)) }

end State

/-! ## The data layer -/

structure Callback where
  calls : List (Instant × Call)
  outcome : Outcome

/-- How a call of the data layer ends. -/
inductive Settled
  | fulfilled (found applied : Bool)
  | rejected (message : String)
  deriving DecidableEq

/-- Stops at the first exception. -/
def recreate (s : State) : List Passkey → State × Option String
  | [] => (s, none)
  | c :: cs =>
    match s.createWebAuthnCredential c with
    | .error message => (s, some message)
    | .ok s' => recreate s' cs

def restoreMemoryWebAuthnCredentials (s : State) (key : UserKey) (snapshot : List Passkey) :
    State × Option String :=
  let current := s.listWebAuthnCredentials key
  recreate (current.foldl (fun s c => s.deleteWebAuthnCredential key c.id) s) snapshot

def mutateAccountSecurity (cfg : Config) (now : Instant) (s : State) (key : UserKey)
    (mutate : Callback) : State × Settled :=
  match s.users.get? key with
  | none => (s, .fulfilled false false)
  | some current =>
    let credentials := s.listWebAuthnCredentials key
    let mutated := s.calls cfg mutate.calls
    match mutate.outcome with
    | .threw message =>
      let restored := restoreMemoryWebAuthnCredentials (mutated.restoreUser cfg current) key credentials
      (restored.1, .rejected (restored.2.getD message))
    | .returned false => (mutated, .fulfilled true false)
    | .returned true =>
      ((mutated.row cfg now key .bumpSecurityVersion).revokeMemoryAccount key, .fulfilled true true)

/-- What the `catch` of `deleteAccount` does. -/
def undelete (cfg : Config) (s : State) (key : UserKey) (user : Account) (adminGrant : Option Grant)
    (credentials : List Passkey) (message : String) : State × String :=
  match s.createUser cfg user with
  | .error other => (s, other)
  | .ok s₁ =>
    match adminGrant.elim (.ok s₁) s₁.setAdminGrant with
    | .error other => (s₁, other)
    | .ok s₂ =>
      let restored := restoreMemoryWebAuthnCredentials s₂ key credentials
      (restored.1, restored.2.getD message)

/-- `deleteAccount`; `audit` is the exception of `writeAudit`, if there is an event and it cannot
be written. -/
def deleteAccount (cfg : Config) (s : State) (key : UserKey) (audit : Option String) :
    State × Settled :=
  let credentials := s.listWebAuthnCredentials key
  let adminGrant := s.adminGrants.get? key
  match s.deleteUser key with
  | none => (s, .fulfilled false false)
  | some (user, deleted) =>
    match audit with
    | some message =>
      let undone := undelete cfg deleted key user adminGrant credentials message
      (undone.1, .rejected undone.2)
    | none => (deleted.revokeMemoryAccount key, .fulfilled true true)

end AuthMe.DataLayer.Tables

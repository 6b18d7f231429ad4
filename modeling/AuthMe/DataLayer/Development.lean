import AuthMe.Service.Pool
import AuthMe.Store.Factor
import AuthMe.Store.WebAuthn

/-!
# The data layer of the development mode

`createDataLayer` of `src/src/db.js` without a database: `mutateAccountSecurity` and
`deleteAccount` over `MemoryIdentityStore`, as programs whose operations are the methods of the
store. A method runs without a pause, and anything can happen between two of them.

What `mutate` does is any program over the methods that work on one row. The identifiers of new
users are random and never issued twice. `State.writes` is not in the store: it says what has been
written, and no operation reads it.
-/

namespace AuthMe.DataLayer

open Service Store

/-! ## The store -/

structure Config where
  lowerCase : String → String

/-- What can be written of an account. -/
inductive Part
  | row (key : UserKey)
  | passkeys (key : UserKey)
  deriving DecidableEq

structure State where
  clock : Instant
  users : Users
  credentials : OrderedMap (String × String) Credential
  grants : OrderedMap UserKey AdminGrant
  /-- The identifiers that have been issued. -/
  issued : List UserKey
  /-- What has been written, the latest first. -/
  writes : List Part

/-- There are no users yet. -/
def State.empty (clock : Instant) : State := ⟨clock, .empty, .empty, .empty, [], []⟩

/-- `Boolean(text?.trim()) ? text.trim() : otherwise`. -/
def orElse (text otherwise : String) : String := if Text.trim text = "" then otherwise else Text.trim text

/-- `normalizeUser`. -/
def normalizeUser (cfg : Config) (u : User) : User :=
  { u with
    username := Text.trim u.username
    email := cfg.lowerCase (Text.trim u.email)
    name := orElse u.name (Text.trim u.username)
    givenName := Text.trim u.givenName
    familyName := Text.trim u.familyName
    roles := u.roles.eraseDups
    groups := u.groups.eraseDups }

/-- The fields of a patch; `none` is a field that is not there. -/
structure Patch where
  email : Option String := none
  emailVerified : Option Bool := none
  name : Option String := none
  givenName : Option String := none
  familyName : Option String := none
  enabled : Option Bool := none
  passwordHash : Option String := none
  roles : Option (List String) := none
  groups : Option (List String) := none
  deriving DecidableEq

def Patch.apply (cfg : Config) (p : Patch) (u : User) : User :=
  { u with
    email := (p.email.map fun email => cfg.lowerCase (Text.trim email)).getD u.email
    emailVerified := p.emailVerified.getD u.emailVerified
    name := p.name.getD u.name
    givenName := p.givenName.getD u.givenName
    familyName := p.familyName.getD u.familyName
    enabled := p.enabled.getD u.enabled
    passwordHash := p.passwordHash.getD u.passwordHash
    roles := p.roles.getD u.roles
    groups := p.groups.getD u.groups }

/-- Another user of the realm logs in with the mail address of the patch. -/
def emailTaken (cfg : Config) (users : Users) (key : UserKey) (p : Patch) : Bool :=
  match p.email with
  | none => false
  | some email =>
    let email := cfg.lowerCase (Text.trim email)
    users.entries.any fun (other, u) =>
      other.1 = key.1 && other.2 ≠ key.2 && (u.email = email || cfg.lowerCase u.username = email)

/-- A user of the realm logs in with the name or the mail address of the user. -/
def loginTaken (cfg : Config) (users : Users) (user : User) : Bool :=
  users.entries.any fun (other, u) =>
    other.1 = user.realm && [cfg.lowerCase u.username, u.email].any fun login =>
      login = cfg.lowerCase user.username || login = user.email

/-- The methods of the store that write one row of `users`. -/
inductive RowOp
  | updateUser (patch : Patch)
  | unlockUser
  | recordLoginFailure
  | recordLoginSuccess
  | rehashPasswordIfCurrent (expectedHash passwordHash : String)
  | factor (call : Factor.Call)
  deriving DecidableEq

/-- The row after a method; `none` when the method throws or answers `false`. -/
def RowOp.apply (cfg : Config) (s : State) (key : UserKey) (u : User) : RowOp → Option User
  | .updateUser patch => if emailTaken cfg s.users key patch then none else some (patch.apply cfg u)
  | .unlockUser => some u.unlock
  | .recordLoginFailure =>
    if u.isLocked s.clock then none else some (u.recordLoginFailure s.clock)
  | .recordLoginSuccess => some u.recordLoginSuccess
  | .rehashPasswordIfCurrent expectedHash passwordHash =>
    u.rehashPasswordIfCurrent expectedHash passwordHash
  | .factor call => call.apply .memory s.clock u

inductive RowResult
  | missing
  | refused
  | written (u : User)
  deriving DecidableEq

inductive Creation
  | userMissing
  | alreadyRegistered
  | created
  deriving DecidableEq

/-- The methods that a caller of the data layer uses. -/
inductive StoreOp
  | findUserById (key : UserKey)
  | row (key : UserKey) (op : RowOp)
  | listWebAuthnCredentials (key : UserKey)
  | createWebAuthnCredential (c : Credential)
  | updateWebAuthnCredentialCounter (realm id : String) (expectedCounter : Nat)
      (verification : Verification)
  | deleteWebAuthnCredential (key : UserKey) (credentialId : String)
  | writeAudit
  deriving DecidableEq

@[reducible] def StoreOp.Res : StoreOp → Type
  | .findUserById _ => Option User
  | .row .. => RowResult
  | .listWebAuthnCredentials _ => List Credential
  | .createWebAuthnCredential _ => Creation
  | .updateWebAuthnCredentialCounter .. => Bool
  | .deleteWebAuthnCredential .. => Option Credential
  | .writeAudit => Bool

/-- The methods that only the data layer uses, and `revokeMemoryAccount`, which deletes artifacts
of the adapters. `recreateUser` is `createUser` with the identifier of a user that was deleted. -/
inductive Op
  | store (op : StoreOp)
  | bumpSecurityVersion (key : UserKey)
  | restoreUser (user : User)
  | deleteUser (key : UserKey)
  | createUser (user : User)
  | recreateUser (user : User)
  | findAdminGrant (key : UserKey)
  | restoreAdminGrant (key : UserKey) (grant : AdminGrant)
  | revokeMemoryAccount (key : UserKey)
  deriving DecidableEq

@[reducible] def Op.Res : Op → Type
  | .store op => op.Res
  | .deleteUser _ => Option User
  | .createUser _ | .recreateUser _ => Option String
  | .findAdminGrant _ => Option AdminGrant
  | .bumpSecurityVersion _ | .restoreUser _ | .restoreAdminGrant .. | .revokeMemoryAccount _ => Unit

abbrev storeMethods : Interface := ⟨StoreOp, StoreOp.Res⟩

abbrev operations : Interface := ⟨Op, Op.Res⟩

/-- What the store does not decide: the order of a list, and whether a method fails. -/
inductive Choice
  | none
  | listed (credentials : List Credential)
  | fails
  deriving DecidableEq

namespace State

def keyOf (u : User) : UserKey := (u.realm, u.id)

def wrote (s : State) (part : Part) : State := { s with writes := part :: s.writes }

def setUser (s : State) (key : UserKey) (u : User) : State :=
  { s with users := s.users.set key u }.wrote (.row key)

def setCredential (s : State) (c : Credential) : State :=
  { s with credentials := s.credentials.set (c.realm, c.id) c }.wrote (.passkeys (c.realm, c.userId))

/-- The passkeys of an account. -/
def credentialsOf (s : State) (key : UserKey) : List Credential :=
  (s.credentials.entries.map Prod.snd).filter fun c => c.realm = key.1 && c.userId = key.2

/-- The passkey goes, if it is one of the account. -/
def eraseCredential (s : State) (key : UserKey) (credentialId : String) : Option Credential × State :=
  match s.credentials.get? (key.1, credentialId) with
  | none => (none, s)
  | some c =>
    if c.userId = key.2 then
      (some c, { s with
        credentials := s.credentials.erase (key.1, credentialId) }.wrote (.passkeys key))
    else (none, s)

def row (cfg : Config) (s : State) (key : UserKey) (op : RowOp) : RowResult × State :=
  match s.users.get? key with
  | none => (.missing, s)
  | some u =>
    match op.apply cfg s key u with
    | none => (.refused, s)
    | some u' => (.written u', s.setUser key u')

def createWebAuthnCredential (s : State) (c : Credential) : Creation × State :=
  match s.users.get? (c.realm, c.userId), s.credentials.get? (c.realm, c.id) with
  | none, _ => (.userMissing, s)
  | some _, some _ => (.alreadyRegistered, s)
  | some _, none => (.created, s.setCredential c)

def updateCounter (s : State) (realm id : String) (expectedCounter : Nat) (v : Verification) :
    Bool × State :=
  match (s.credentials.get? (realm, id)).bind (·.updateCounter expectedCounter v) with
  | none => (false, s)
  | some c => (true, s.setCredential c)

/-- The grant and the passkeys of a user go with it. -/
def deleteUser (s : State) (key : UserKey) : Option User × State :=
  match s.users.get? key with
  | none => (none, s)
  | some u =>
    (some u, { s with
      users := s.users.erase key
      grants := s.grants.erase key
      credentials := s.credentials.filter fun _ c => !(c.realm = key.1 && c.userId = key.2)
      writes := .row key :: .passkeys key :: s.writes })

/-- `createUser`, up to the identifier; it answers the message of an exception. -/
def insertUser (cfg : Config) (s : State) (u : User) : Option String × State :=
  let user := normalizeUser cfg u
  if (s.users.get? (keyOf user)).isSome then (some "A user with that id already exists", s)
  else if loginTaken cfg s.users user then
    (some "A user with that username or email already exists", s)
  else (none, s.setUser (keyOf user) user)

def answerStore (cfg : Config) (s : State) (choice : Choice) : (op : StoreOp) → Option (op.Res × State)
  | .findUserById key => some (s.users.get? key, s)
  | .row key op => some (s.row cfg key op)
  | .listWebAuthnCredentials key =>
    -- they are sorted by the time of creation
    match choice with
    | .listed credentials =>
      if credentials.Perm (s.credentialsOf key) then some (credentials, s) else none
    | _ => none
  | .createWebAuthnCredential c => some (s.createWebAuthnCredential c)
  | .updateWebAuthnCredentialCounter realm id expectedCounter v =>
    some (s.updateCounter realm id expectedCounter v)
  | .deleteWebAuthnCredential key credentialId => some (s.eraseCredential key credentialId)
  | .writeAudit => some (choice ≠ .fails, s)

def answer (cfg : Config) (s : State) (choice : Choice) : (op : Op) → Option (op.Res × State)
  | .store op => s.answerStore cfg choice op
  | .bumpSecurityVersion key =>
    match s.users.get? key with
    | none => some ((), s)
    | some u => some ((), s.setUser key u.bumpSecurityVersion)
  | .restoreUser u =>
    let user := normalizeUser cfg u
    some ((), s.setUser (keyOf user) user)
  | .deleteUser key => some (s.deleteUser key)
  | .createUser u =>
    if keyOf u ∈ s.issued then none
    else some (insertUser cfg { s with issued := keyOf u :: s.issued } u)
  | .recreateUser u => some (s.insertUser cfg u)
  | .findAdminGrant key => some (s.grants.get? key, s)
  | .restoreAdminGrant key grant => some ((), { s with grants := s.grants.set key grant })
  | .revokeMemoryAccount _ => some ((), s)

end State

/-- `securityVersionFor` of the adapters: an artifact of the account is accepted if it has the
version that is the answer. -/
def State.securityVersionFor (s : State) (key : UserKey) : Option Nat :=
  (s.users.get? key).bind fun u => if u.enabled then some u.securityVersion else none

/-! ## Programs -/

/-- How `mutate` ends: it returns a value that is true or false for JavaScript, or throws. -/
inductive Outcome
  | returned (result : Bool)
  | threw (message : String)
  deriving DecidableEq

inductive Result
  | done
  | threw (message : String)
  | notFound
  | mutated (applied : Bool) (user : Option User)
  | deleted (user : User)
  deriving DecidableEq

/-- The methods of the store, as a caller of the data layer uses them. -/
def onStore {α : Type} : Program storeMethods α → Program operations α
  | .done a => .done a
  | .await op next => .await (.store op) fun res => onStore (next res)

def deleteAll (key : UserKey) : List Credential → Program operations Unit
  | [] => .done ()
  | c :: cs => .await (.store (.deleteWebAuthnCredential key c.id)) fun _ => deleteAll key cs

/-- Stops at a passkey that is registered; `false` is the exception. -/
def createAll : List Credential → Program operations Bool
  | [] => .done true
  | c :: cs =>
    .await (.store (.createWebAuthnCredential c)) fun creation =>
      match creation with
      | .alreadyRegistered => .done false
      | .userMissing | .created => createAll cs

def restoreMemoryWebAuthnCredentials (key : UserKey) (snapshot : List Credential) :
    Program operations Bool := do
  let current ← Program.perform (I := operations) (.store (.listWebAuthnCredentials key))
  deleteAll key current
  createAll snapshot

def mutateAccountSecurity (key : UserKey) (mutate : Program storeMethods Outcome) :
    Program operations Result := do
  let current ← Program.perform (I := operations) (.store (.findUserById key))
  match current with
  | none => return .notFound
  | some current =>
    let credentials ← Program.perform (I := operations) (.store (.listWebAuthnCredentials key))
    match ← onStore mutate with
    | .threw message =>
      Program.perform (I := operations) (.restoreUser current)
      if ← restoreMemoryWebAuthnCredentials key credentials then return .threw message
      else return .threw "This passkey is already registered"
    | .returned false =>
      let user ← Program.perform (I := operations) (.store (.findUserById key))
      return .mutated false user
    | .returned true =>
      Program.perform (I := operations) (.bumpSecurityVersion key)
      Program.perform (I := operations) (.revokeMemoryAccount key)
      let user ← Program.perform (I := operations) (.store (.findUserById key))
      return .mutated true user

def restoreGrant (key : UserKey) : Option AdminGrant → Program operations Unit
  | none => .done ()
  | some grant => .await (.restoreAdminGrant key grant) .done

/-- `deleteAccount`; `audited` says whether there is an audit event. -/
def deleteAccount (key : UserKey) (audited : Bool) : Program operations Result := do
  let credentials ← Program.perform (I := operations) (.store (.listWebAuthnCredentials key))
  let adminGrant ← Program.perform (I := operations) (.findAdminGrant key)
  let user ← Program.perform (I := operations) (.deleteUser key)
  match user with
  | none => return .notFound
  | some user =>
    let written ← if audited then Program.perform (I := operations) (.store .writeAudit) else pure true
    if written then
      Program.perform (I := operations) (.revokeMemoryAccount key)
      return .deleted user
    else
      match ← Program.perform (I := operations) (.recreateUser user) with
      | some message => return .threw message
      | none =>
        restoreGrant key adminGrant
        if ← restoreMemoryWebAuthnCredentials key credentials then return .threw "audit"
        else return .threw "This passkey is already registered"

/-! ## The service -/

inductive Request
  | mutateAccountSecurity (key : UserKey) (mutate : Program storeMethods Outcome)
  | deleteAccount (key : UserKey) (audited : Bool)
  | createUser (user : User)
  | methods (p : Program storeMethods Unit)

def Request.program : Request → Program operations Result
  | .mutateAccountSecurity key mutate => DataLayer.mutateAccountSecurity key mutate
  | .deleteAccount key audited => DataLayer.deleteAccount key audited
  | .createUser user => .await (.createUser user) fun _ => .done .done
  | .methods p => do
    onStore p
    return .done

/-- Time passes. -/
def elapse (s : State) (clock : Instant) : Option State :=
  if s.clock.ms ≤ clock.ms then some { s with clock := clock } else none

/-- The development data layer as a service. -/
def layer (cfg : Config) : Service operations State Request Result Choice Instant where
  program := Request.program
  answer := State.answer cfg
  change := elapse

end AuthMe.DataLayer

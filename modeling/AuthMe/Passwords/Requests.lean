import AuthMe.DataLayer.Development
import AuthMe.Scim.NoOp
import AuthMe.Transition.RowLock

/-!
# Requests that read or write a password hash

The requests that write the column `password_hash` of one account in PostgreSQL, or the row around
it, as programs whose operations are single statements: the login of `src/src/routes/interactions.js`,
the two routes of `src/src/routes/admin.js` over `mutateAccountSecurity` of `src/src/db.js`, and PUT
and PATCH of `src/src/scim/router.js` over `replaceUser` of
`src/src/repositories/scim-repository.js`.

The row is the one of `Scim.UserRow`. What else writes it (login attempts, second factors, passkeys,
group membership) leaves the column alone, and is a change from outside.
-/

namespace AuthMe.Passwords

open Service Scim

/-! ## Writing the row -/

/-- A statement `UPDATE users` on the row. -/
inductive Write
  | updateUser (patch : DataLayer.Patch)
  | unlockUser
  | bumpSecurityVersion
  | replaceUser (core : CoreUser) (passwordHash : String)
  | setExternalId (externalId : Option String)

/-- A column of the patch is one that the trigger `users_version_scim_resource` watches. -/
def bumpsVersion (patch : DataLayer.Patch) : Bool :=
  patch.email.isSome || patch.emailVerified.isSome || patch.name.isSome ||
    patch.givenName.isSome || patch.familyName.isSome || patch.enabled.isSome ||
    patch.roles.isSome || patch.groups.isSome

/-- The row after a statement and the trigger. The columns that `unlockUser` sets are not there. -/
def Write.apply (lower : LowerCase) (w : Write) (row : UserRow) : UserRow :=
  match w with
  | .updateUser patch =>
    { row with
      email := (patch.email.map fun email => lower (Text.trim email)).getD row.email
      emailVerified := patch.emailVerified.getD row.emailVerified
      displayName := patch.name.getD row.displayName
      givenName := patch.givenName.getD row.givenName
      familyName := patch.familyName.getD row.familyName
      enabled := patch.enabled.getD row.enabled
      passwordHash := patch.passwordHash.getD row.passwordHash
      roles := patch.roles.getD row.roles
      groups := patch.groups.getD row.groups
      version := if bumpsVersion patch then row.version + 1 else row.version }
  | .unlockUser => row
  | .bumpSecurityVersion => { row with securityVersion := row.securityVersion + 1 }
  | .replaceUser core passwordHash =>
    { row with
      username := core.username
      email := core.email
      emailVerified := core.emailVerified
      displayName := core.displayName
      givenName := core.givenName
      familyName := core.familyName
      enabled := core.enabled
      passwordHash := passwordHash
      roles := core.roles
      scim := core.extra
      securityVersion := row.securityVersion + 1
      version := row.version + 1 }
  | .setExternalId externalId => { row with externalId := externalId }

/-- The password hash that the statement sets. -/
def Write.passwordHash? : Write → Option String
  | .updateUser patch => patch.passwordHash
  | .replaceUser _ passwordHash => some passwordHash
  | _ => none

theorem passwordHash_apply (lower : LowerCase) (w : Write) (row : UserRow) :
    (w.apply lower row).passwordHash = w.passwordHash?.getD row.passwordHash := by
  cases w <;> rfl

/-! ## Operations -/

/-- A statement of a transaction: `SELECT ... FOR UPDATE`, `UPDATE`, `SELECT`, or a statement on
other tables. -/
inductive Statement
  | lock
  | update (w : Write)
  | select
  | other

inductive CommitResult
  | committed (answered : Bool)
  | aborted
  deriving DecidableEq

/-- `remaining` is what a login checks besides the password: the lock and the second factor. -/
inductive Op
  | findUser
  | verifyPassword (hash password : String)
  | hashPassword (password : String)
  | remaining
  | rehashPasswordIfCurrent (expectedHash passwordHash : String)
  | begin
  | query (transaction : Nat) (statement : Statement)
  | commit (transaction : Nat)
  | rollback (transaction : Nat)

/-- The answers; `none` is an error. -/
@[reducible] def Op.Res : Op → Type
  | .findUser | .query .. => Option UserRow
  | .verifyPassword .. | .remaining => Bool
  | .hashPassword _ => Option String
  | .rehashPasswordIfCurrent .. => Option Bool
  | .begin => Option Nat
  | .commit _ => CommitResult
  | .rollback _ => Unit

abbrev operations : Interface := ⟨Op, Op.Res⟩

/-! ## The store -/

/-- The row, and the hashes that have been computed, each with its password. -/
structure State extends LockedRow UserRow where
  hashes : List (String × String)

/-- The account has been created with this password. -/
def State.created (row : UserRow) (password : String) : State :=
  { LockedRow.initial row with hashes := [(row.passwordHash, password)] }

/-- `verifyPassword`: a hash verifies the password that it was computed from, and no other. -/
def State.verifies (s : State) (hash password : String) : Bool := s.hashes.contains (hash, password)

theorem verifies_iff {s : State} {hash password : String} :
    s.verifies hash password = true ↔ (hash, password) ∈ s.hashes := List.contains_iff_mem

structure Config where
  lowerCase : LowerCase
  needsPasswordRehash : String → Bool

/-- What the row does not decide. A statement can fail, and the answer of one that commits can be
lost. -/
inductive Choice
  | done
  | lost
  | fails
  | hash (hash : String)
  | remaining (passed : Bool)
  deriving DecidableEq

/-- The length of a password that `hashPassword` accepts. -/
def acceptable (password : String) : Bool :=
  12 ≤ Text.length password && Text.length password ≤ 1024

/-- A statement of a transaction; `none` while it waits for the lock. -/
def runStatement (cfg : Config) (s : State) (t : Nat) : Statement → Option (Option UserRow × State)
  | .lock => (s.acquire t).map fun row => (some row, { s with toLockedRow := s.hold t row })
  | .update w => (s.acquire t).map fun row =>
    let row := w.apply cfg.lowerCase row
    (some row, { s with toLockedRow := s.hold t row })
  | .select | .other => some (some (s.view t), s)

def answer (cfg : Config) (s : State) (choice : Choice) : (op : Op) → Option (op.Res × State)
  | .findUser =>
    match choice with
    | .done => some (some s.row, s)
    | _ => some (none, s)
  | .verifyPassword hash password => some (s.verifies hash password, s)
  | .hashPassword password =>
    match choice with
    -- the salt is random: no hash is computed twice
    | .hash hash =>
      if acceptable password = true ∧ hash ∉ s.hashes.map Prod.fst then
        some (some hash, { s with hashes := (hash, password) :: s.hashes })
      else none
    | _ => some (none, s)
  | .remaining =>
    match choice with
    | .remaining passed => some (passed, s)
    | _ => none
  | .rehashPasswordIfCurrent expectedHash passwordHash =>
    let row := if s.row.passwordHash = expectedHash then { s.row with passwordHash := passwordHash }
      else s.row
    match choice with
    | .done =>
      if s.holder.isSome then none
      else some (some (s.row.passwordHash = expectedHash), { s with toLockedRow := s.write row })
    | .lost => if s.holder.isSome then none else some (none, { s with toLockedRow := s.write row })
    | _ => some (none, s)
  | .begin =>
    match choice with
    | .done => some (some s.begun, { s with toLockedRow := s.start })
    | _ => some (none, s)
  | .query t statement =>
    match choice with
    | .done => if t ∈ s.active then runStatement cfg s t statement else some (none, s)
    | _ => some (none, s)
  | .commit t =>
    match choice with
    | .done =>
      if t ∈ s.active then some (.committed true, { s with toLockedRow := s.commit t })
      else some (.aborted, s)
    | .lost =>
      if t ∈ s.active then some (.committed false, { s with toLockedRow := s.commit t })
      else some (.aborted, s)
    | _ => some (.aborted, { s with toLockedRow := s.close t })
  | .rollback t => some ((), { s with toLockedRow := s.close t })

/-- A connection ends, or somebody writes other columns of the row. -/
inductive Change
  | disconnect (transaction : Nat)
  | write (row : UserRow)

def change (s : State) : Change → Option State
  | .disconnect t => some { s with toLockedRow := s.close t }
  | .write row =>
    if s.holder.isNone ∧ row.passwordHash = s.row.passwordHash then
      some { s with toLockedRow := s.write row }
    else none

/-! ## Transactions -/

/-- What a request reports. -/
inductive Reply
  | done
  | failed
  deriving DecidableEq

abbrev Route (α : Type) := Program operations α

abbrev perform (op : Op) : Route op.Res := Program.perform (I := operations) op

/-- The statements of a transaction, up to the first one that fails. -/
def queries (t : Nat) : List Statement → Route Bool
  | [] => return true
  | statement :: rest => do
    let result ← perform (.query t statement)
    if result.isSome then queries t rest else return false

/-- The end of a transaction: `COMMIT`, or `ROLLBACK` after an error. -/
def finish (t : Nat) (ok : Bool) : Route Reply := do
  if ok then
    let result ← perform (.commit t)
    match result with
    | .committed true => return .done
    | _ =>
      let _ ← perform (.rollback t)
      return .failed
  else
    let _ ← perform (.rollback t)
    return .failed

/-- `mutateAccountSecurity`, for a callback that performs these statements. -/
def mutateAccountSecurity (mutate : List Statement) : Route Reply := do
  let begun ← perform .begin
  match begun with
  | none => return .failed
  | some t =>
    let ok ← queries t ([.lock] ++ mutate ++ [.update .bumpSecurityVersion, .other, .select])
    finish t ok

/-- `replaceUser` in SCIM, after the password has been hashed. -/
def replaceUser (lower : LowerCase) (current : UserRow) (attributes : User)
    (passwordHash : Option String) : Route Reply := do
  let begun ← perform .begin
  match begun with
  | none => return .failed
  | some t =>
    let locked ← perform (.query t .lock)
    match locked with
    | none => finish t false
    | some row =>
      if row.version ≠ current.version then finish t false
      else
        let core := coreUser lower attributes current.id
        let ok ← queries t
          [.update (.replaceUser core (passwordHash.getD row.passwordHash)),
            .update (.setExternalId attributes.externalId.text?), .other, .select]
        finish t ok

/-- The first part of `replaceUser`, which checks and hashes the password. -/
def replaceWithPassword (lower : LowerCase) (current : UserRow) (attributes : User) : Route Reply := do
  match attributes.password.text? with
  | none => replaceUser lower current attributes none
  | some password =>
    if acceptable password then
      let hash ← perform (.hashPassword password)
      match hash with
      | none => return .failed
      | some hash => replaceUser lower current attributes (some hash)
    else return .failed

/-! ## Routes -/

/-- `POST …/login`. -/
def login (cfg : Config) (password : String) : Route Reply := do
  let user ← perform .findUser
  match user with
  | none => return .failed
  | some user =>
    -- where an LDAP server accepts the password instead, there is no rehash
    let passwordOk ← perform (.verifyPassword user.passwordHash password)
    let passed ← perform .remaining
    if !user.enabled || !passwordOk || !passed then return .failed
    else if cfg.needsPasswordRehash user.passwordHash then
      let hash ← perform (.hashPassword password)
      match hash with
      | none => return .failed
      | some hash =>
        let _ ← perform (.rehashPasswordIfCurrent user.passwordHash hash)
        return .done
    else return .done

/-- A body that `updateUserSchema` accepts. -/
structure ProfilePatch where
  patch : DataLayer.Patch
  noPassword : patch.passwordHash = none

/-- `PATCH …/users/:id` of the administration. -/
def patchProfile (patch : ProfilePatch) : Route Reply :=
  mutateAccountSecurity [.update (.updateUser patch.patch), .other]

/-- `PUT …/users/:id/password`. -/
def resetPassword (password : String) : Route Reply := do
  let hash ← perform (.hashPassword password)
  match hash with
  | none => return .failed
  | some hash =>
    mutateAccountSecurity
      [.update (.updateUser { passwordHash := some hash }), .update .unlockUser, .other]

/-- `etag(record)`. -/
def etag (row : UserRow) : String := "W/\"" ++ toString row.version ++ "\""

/-- `checkIfMatch(req, record)`, for the tokens of the header. -/
def checkIfMatch (candidates : List String) (row : UserRow) : Bool :=
  candidates = [] || "*" ∈ candidates || etag row ∈ candidates

/-- `replacementBody(body)`. -/
def replacementBody (body : Value) : Value := (body.delete "id").delete "meta"

/-- The attributes that PUT passes to `replaceUser`; `none` is an error. -/
def putAttributes (lower : LowerCase) (ifMatch : List String) (body : Value) (row : UserRow) :
    Option User :=
  if checkIfMatch ifMatch row &&
      ((body.get "id").isNullish || (body.get "id").same (.string row.id.text)) then
    (normalizeUser lower (replacementBody body) none).toOption
  else none

/-- `PUT …/Users/:id`. -/
def scimPut (cfg : Config) (ifMatch : List String) (body : Value) : Route Reply := do
  let current ← perform .findUser
  match current with
  | none => return .failed
  | some row =>
    match putAttributes cfg.lowerCase ifMatch body row with
    | none => return .failed
    | some attributes => replaceWithPassword cfg.lowerCase row attributes

/-- `PATCH …/Users/:id`. -/
def scimPatch (cfg : Config) (ifMatch : List String) (body : Value) : Route Reply := do
  let current ← perform .findUser
  match current with
  | none => return .failed
  | some row =>
    if checkIfMatch ifMatch row then
      match patchUser cfg.lowerCase (rowAttributes row) body with
      | .error _ => return .failed
      | .ok none => return .done
      | .ok (some attributes) => replaceWithPassword cfg.lowerCase row attributes
    else return .failed

inductive Request
  | login (password : String)
  | patchProfile (patch : ProfilePatch)
  | resetPassword (password : String)
  | scimPut (ifMatch : List String) (body : Value)
  | scimPatch (ifMatch : List String) (body : Value)

def program (cfg : Config) : Request → Route Reply
  | .login password => login cfg password
  | .patchProfile patch => patchProfile patch
  | .resetPassword password => resetPassword password
  | .scimPut ifMatch body => scimPut cfg ifMatch body
  | .scimPatch ifMatch body => scimPatch cfg ifMatch body

/-- The service: any number of these requests on one account. -/
def passwords (cfg : Config) : Service operations State Request Reply Choice Change where
  program := program cfg
  answer := answer cfg
  change := change

end AuthMe.Passwords

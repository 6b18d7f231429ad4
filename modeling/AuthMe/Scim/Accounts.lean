import AuthMe.Passwords.Requests
import AuthMe.Scim.GroupRevocation

/-!
# Transactions on users

What writes the rows of `users` that SCIM shows: `createUser`, `replaceUser` and `deleteUser` of
`src/src/repositories/scim-repository.js`, and `updateUser`, `mutateAccountSecurity` and
`deleteAccount` behind the administration routes (`src/src/db.js`). The constraints of `users` are a
parameter: it says with which error the schema refuses a row.
-/

namespace AuthMe.Scim

open Passwords (Write)

/-- The constraints of `users`; `none` lets the row through. -/
abbrev UserConstraints := Tables → UserRow → Option DatabaseError

section

variable (lower : LowerCase) (refuses : UserConstraints)

/-- The row, if the constraints let it through. -/
def writeUser (row : UserRow) : Query Unit := do
  let s ← get
  match refuses s.tables row with
  | some error => throw (.database error)
  | none => modifyTables fun t => { t with users := t.users.insert row }

/-- `INSERT INTO users ...`. The trigger `users_create_scim_resource` gives the row its first
version. -/
def insertUser (row : UserRow) : Query Unit := do
  let s ← get
  if (s.tables.users.get? row.id).isSome then throw (.database .uniqueViolation) else
  writeUser refuses row

/-- `UPDATE users ... WHERE realm_name=$1 AND id=$2`, or an update of `scim_user_resources`. -/
def updateRow (id : Uuid) (w : Write) : Query Unit := do
  let s ← get
  match s.tables.users.get? id with
  | none => return
  | some row => writeUser refuses (w.apply lower row)

/-- `DELETE FROM users ...`; the rows of `scim_group_members` go with it. -/
def eraseUser (id : Uuid) (t : Tables) : Tables :=
  { t with users := t.users.erase id, members := t.members.filter fun m => m.userId ≠ id }

/-- `UPDATE scim_groups SET version=version+1 ...`, for the groups of a user. -/
def versionGroups (id : Uuid) (t : Tables) : Tables :=
  { t with
    groups := t.groups.update (fun g => t.isMember g.id id)
      (fun g => { g with version := g.version + 1 }) fun _ => rfl }

/-- `SELECT ... WHERE users.id=$2`, as a record. -/
def readUser (id : Uuid) : Query (Option UserRecord) := do
  let s ← get
  return (s.tables.users.get? id).map rowToUser

/-! ## SCIM -/

/-- The row that `createUser` inserts. -/
def newUser (core : CoreUser) (id : Uuid) (passwordHash : String) : UserRow where
  id := id
  username := core.username
  email := core.email
  emailVerified := core.emailVerified
  displayName := core.displayName
  givenName := core.givenName
  familyName := core.familyName
  enabled := core.enabled
  securityVersion := 0
  passwordHash := passwordHash
  roles := core.roles
  groups := []
  scim := core.extra
  externalId := none
  version := 1

/-- `createUser(realm, attributes)`, where `randomUUID` gives `id` and the hash has been computed. -/
def createUser (id : Uuid) (attributes : User) (passwordHash : String) :
    Query (Option UserRecord) :=
  Transaction.mapError (translateConstraint "User") <| withTransaction do
    insertUser refuses (newUser (coreUser lower attributes id) id passwordHash)
    updateRow lower refuses id (.setExternalId attributes.externalId.text?)
    readUser id

/-- The statements of `replaceUser`; the hash is that of the password in the body, if it has one. The
columns are of type `uuid`, but the artifacts are those of the text that the method was given. -/
def replaceUserRows (realm given : String) (id : Uuid) (attributes : User) (expectedVersion : Nat)
    (passwordHash : Option String) : Query (Option UserRecord) := do
  let s ← get
  match s.tables.users.get? id with
  | none => throw (.repository .notFound "The requested SCIM User does not exist.")
  | some row =>
    if row.version ≠ expectedVersion then
      throw (.repository .versionMismatch "The SCIM User changed since it was read.") else
    updateRow lower refuses id
      (.replaceUser (coreUser lower attributes id) (passwordHash.getD row.passwordHash))
    updateRow lower refuses id (.setExternalId attributes.externalId.text?)
    revokeAccounts realm [given]
    readUser id

/-- `replaceUser(realm, id, attributes, expectedVersion)`. -/
def replaceUser (realm id : String) (attributes : User) (expectedVersion : Nat)
    (passwordHash : Option String) : Query (Option UserRecord) :=
  match Uuid.parse id with
  | none => throw (.repository .notFound "The requested SCIM User does not exist.")
  | some userId =>
    Transaction.mapError (translateConstraint "User") <| withTransaction <|
      replaceUserRows lower refuses realm id userId attributes expectedVersion passwordHash

end

/-- The statements of `deleteUser`. -/
def deleteUserRows (realm given : String) (id : Uuid) (expectedVersion : Nat) :
    Query (Option UserRecord) := do
  let s ← get
  match s.tables.users.get? id with
  | none => throw (.repository .notFound "The requested SCIM User does not exist.")
  | some row =>
    if row.version ≠ expectedVersion then
      throw (.repository .versionMismatch "The SCIM User changed since it was read.") else
    modifyTables (versionGroups id)
    revokeAccounts realm [given]
    modifyTables (eraseUser id)
    return some (rowToUser row)

/-- `deleteUser(realm, id, expectedVersion)`. -/
def deleteUser (realm id : String) (expectedVersion : Nat) : Query (Option UserRecord) :=
  match Uuid.parse id with
  | none => throw (.repository .notFound "The requested SCIM User does not exist.")
  | some userId => withTransaction <| deleteUserRows realm id userId expectedVersion

/-! ## Administration -/

section

variable (lower : LowerCase) (refuses : UserConstraints)

/-- `updateUser(realm, id, patch)`. -/
def updateUser (id : Uuid) (patch : DataLayer.Patch) : Query Unit :=
  withTransaction <| updateRow lower refuses id (.updateUser patch)

/-- `mutateAccountSecurity(realm, accountId, mutate)`, for a callback that updates the user with these
patches. `applied` is whether the callback returns something. -/
def mutateAccountSecurity (realm : String) (id : Uuid) (patches : List DataLayer.Patch)
    (applied : Bool) : Query Unit :=
  withTransaction do
    let s ← get
    if (s.tables.users.get? id).isNone then return () else
    forM patches fun patch => updateRow lower refuses id (.updateUser patch)
    if applied then
      updateRow lower refuses id .bumpSecurityVersion
      revokeAccounts realm [id.text]

/-- `deleteAccount(realm, accountId)`. -/
def deleteAccount (realm : String) (id : Uuid) : Query Unit :=
  withTransaction do
    let s ← get
    if (s.tables.users.get? id).isNone then return () else
    revokeAccounts realm [id.text]
    modifyTables (eraseUser id)

end

/-! ## What the statements do -/

/-- One row of `users` is changed. -/
structure RowChanged (id : Uuid) (f : UserRow → UserRow) (t t' : Tables) : Prop where
  groups : t'.groups = t.groups
  members : t'.members = t.members
  users : ∀ v, t'.users.get? v = if v = id then (t.users.get? v).map f else t.users.get? v

theorem RowChanged.refl (id : Uuid) (t : Tables) : RowChanged id (fun row => row) t t := by
  refine ⟨rfl, rfl, ?_⟩
  intro v
  rw [Option.map_id']
  split <;> rfl

theorem RowChanged.trans {id : Uuid} {f g : UserRow → UserRow} {t t' t'' : Tables}
    (h : RowChanged id f t t') (h' : RowChanged id g t' t'') :
    RowChanged id (fun row => g (f row)) t t'' := by
  refine ⟨h'.groups.trans h.groups, h'.members.trans h.members, ?_⟩
  intro v
  rw [h'.users, h.users]
  split
  · rw [Option.map_map]
    rfl
  · rfl

section

variable {lower : LowerCase} {refuses : UserConstraints} {s s' : Store}

theorem id_apply (w : Write) (row : UserRow) : (w.apply lower row).id = row.id := by
  cases w <;> rfl

theorem writeUser_ok {row : UserRow} {u : Unit}
    (h : (writeUser refuses row).exec s = (.ok u, s')) :
    s' = { s with tables := { s.tables with users := s.tables.users.insert row } } := by
  rw [writeUser, Transaction.bind_ok] at h
  obtain ⟨t, s₁, hget, h⟩ := h
  obtain ⟨rfl, rfl⟩ := Transaction.get_ok.mp hget
  cases hrefuses : refuses s.tables row with
  | some error =>
    rw [hrefuses] at h
    exact absurd h Transaction.throw_ok
  | none =>
    rw [hrefuses] at h
    exact modifyTables_ok h

theorem insertUser_ok {row : UserRow} {u : Unit}
    (h : (insertUser refuses row).exec s = (.ok u, s')) :
    s.tables.users.get? row.id = none ∧
      s' = { s with tables := { s.tables with users := s.tables.users.insert row } } := by
  rw [insertUser, Transaction.bind_ok] at h
  obtain ⟨t, s₁, hget, h⟩ := h
  obtain ⟨rfl, rfl⟩ := Transaction.get_ok.mp hget
  obtain ⟨hnew, h⟩ := Transaction.unless_ok.mp h
  exact ⟨by simpa using hnew, writeUser_ok h⟩

theorem updateRow_ok {id : Uuid} {w : Write} {u : Unit}
    (h : (updateRow lower refuses id w).exec s = (.ok u, s')) :
    s'.records = s.records ∧ RowChanged id (w.apply lower) s.tables s'.tables := by
  rw [updateRow, Transaction.bind_ok] at h
  obtain ⟨t, s₁, hget, h⟩ := h
  obtain ⟨rfl, rfl⟩ := Transaction.get_ok.mp hget
  cases hrow : s.tables.users.get? id with
  | none =>
    rw [hrow] at h
    obtain ⟨_, rfl⟩ := Transaction.pure_ok.mp h
    refine ⟨rfl, rfl, rfl, ?_⟩
    intro v
    split
    · rename_i hv
      rw [hv, hrow]
      rfl
    · rfl
  | some row =>
    rw [hrow] at h
    rw [writeUser_ok h]
    refine ⟨rfl, rfl, rfl, ?_⟩
    intro v
    have hid : row.id = id := Table.keyOf_of_get? hrow
    show (s.tables.users.insert (w.apply lower row)).get? v = _
    rw [Table.get?_insert, id_apply, hid]
    split
    · rename_i hv
      rw [hv, hrow]
      rfl
    · rfl

theorem createUser_changed {id : Uuid} {attributes : User} {passwordHash : String}
    {answer : Option UserRecord}
    (h : (createUser lower refuses id attributes passwordHash).exec s = (.ok answer, s')) :
    s.tables.users.get? id = none ∧
      RowChanged id (Write.apply lower (.setExternalId attributes.externalId.text?))
        { s.tables with
          users := s.tables.users.insert (newUser (coreUser lower attributes id) id passwordHash) }
        s'.tables := by
  have hrun := Transaction.atomically_ok.mp (Transaction.mapError_ok.mp h)
  rw [Transaction.bind_ok] at hrun
  obtain ⟨_, s₁, hinsert, hrun⟩ := hrun
  obtain ⟨hnew, rfl⟩ := insertUser_ok hinsert
  rw [Transaction.bind_ok] at hrun
  obtain ⟨_, s₂, hupdate, hrun⟩ := hrun
  rw [readUser, Transaction.bind_ok] at hrun
  obtain ⟨_, s₃, hget, hrun⟩ := hrun
  obtain ⟨rfl, rfl⟩ := Transaction.get_ok.mp hget
  obtain ⟨_, rfl⟩ := Transaction.pure_ok.mp hrun
  exact ⟨hnew, (updateRow_ok hupdate).2⟩

theorem createUser_ok {id : Uuid} {attributes : User} {passwordHash : String}
    {answer : Option UserRecord}
    (h : (createUser lower refuses id attributes passwordHash).exec s = (.ok answer, s')) :
    s.tables.users.get? id = none ∧ s'.tables.groups = s.tables.groups ∧
      s'.tables.members = s.tables.members ∧
      ∀ v, v ≠ id → s'.tables.users.get? v = s.tables.users.get? v := by
  obtain ⟨hnew, hrow⟩ := createUser_changed h
  refine ⟨hnew, hrow.groups, hrow.members, ?_⟩
  intro v hv
  rw [hrow.users, if_neg hv]
  show (s.tables.users.insert _).get? v = _
  rw [Table.get?_insert]
  exact if_neg hv

theorem replaceUser_ok {realm id : String} {attributes : User} {expectedVersion : Nat}
    {passwordHash : Option String} {answer : Option UserRecord}
    (h : (replaceUser lower refuses realm id attributes expectedVersion passwordHash).exec s =
      (.ok answer, s')) :
    ∃ row, Uuid.parse id = some row.id ∧ s.tables.users.get? row.id = some row ∧
      row.version = expectedVersion ∧
      RowChanged row.id (fun row' => Write.apply lower (.setExternalId attributes.externalId.text?)
        (Write.apply lower (.replaceUser (coreUser lower attributes row.id)
          (passwordHash.getD row.passwordHash)) row')) s.tables s'.tables := by
  rw [replaceUser] at h
  cases hid : Uuid.parse id with
  | none =>
    rw [hid] at h
    exact absurd h Transaction.throw_ok
  | some userId =>
    rw [hid] at h
    have hrun := Transaction.atomically_ok.mp (Transaction.mapError_ok.mp h)
    rw [replaceUserRows, Transaction.bind_ok] at hrun
    obtain ⟨t, s₁, hget, hrun⟩ := hrun
    obtain ⟨rfl, rfl⟩ := Transaction.get_ok.mp hget
    cases hrow : s.tables.users.get? userId with
    | none =>
      rw [hrow] at hrun
      exact absurd hrun Transaction.throw_ok
    | some row =>
      rw [hrow] at hrun
      obtain ⟨hversion, hrun⟩ := Transaction.unless_ok.mp hrun
      rw [Transaction.bind_ok] at hrun
      obtain ⟨_, s₁, hreplace, hrun⟩ := hrun
      rw [Transaction.bind_ok] at hrun
      obtain ⟨_, s₂, hexternal, hrun⟩ := hrun
      rw [Transaction.bind_ok] at hrun
      obtain ⟨_, s₃, hrevoke, hrun⟩ := hrun
      rw [readUser, Transaction.bind_ok] at hrun
      obtain ⟨_, s₄, hget, hrun⟩ := hrun
      obtain ⟨rfl, rfl⟩ := Transaction.get_ok.mp hget
      obtain ⟨_, rfl⟩ := Transaction.pure_ok.mp hrun
      have hkey : row.id = userId := Table.keyOf_of_get? hrow
      subst hkey
      refine ⟨row, rfl, hrow, by simpa using hversion, ?_⟩
      rw [(revokeAccounts_ok hrevoke).1]
      exact (updateRow_ok hreplace).2.trans (updateRow_ok hexternal).2

theorem deleteUser_ok {realm id : String} {expectedVersion : Nat} {answer : Option UserRecord}
    (h : (deleteUser realm id expectedVersion).exec s = (.ok answer, s')) :
    ∃ row, Uuid.parse id = some row.id ∧ s.tables.users.get? row.id = some row ∧
      row.version = expectedVersion ∧ s'.tables = eraseUser row.id (versionGroups row.id s.tables) := by
  rw [deleteUser] at h
  cases hid : Uuid.parse id with
  | none =>
    rw [hid] at h
    exact absurd h Transaction.throw_ok
  | some userId =>
    rw [hid] at h
    have hrun := Transaction.atomically_ok.mp h
    rw [deleteUserRows, Transaction.bind_ok] at hrun
    obtain ⟨t, s₁, hget, hrun⟩ := hrun
    obtain ⟨rfl, rfl⟩ := Transaction.get_ok.mp hget
    cases hrow : s.tables.users.get? userId with
    | none =>
      rw [hrow] at hrun
      exact absurd hrun Transaction.throw_ok
    | some row =>
      rw [hrow] at hrun
      obtain ⟨hversion, hrun⟩ := Transaction.unless_ok.mp hrun
      rw [Transaction.bind_ok] at hrun
      obtain ⟨_, s₁, hgroups, hrun⟩ := hrun
      rw [Transaction.bind_ok] at hrun
      obtain ⟨_, s₂, hrevoke, hrun⟩ := hrun
      rw [Transaction.bind_ok] at hrun
      obtain ⟨_, s₃, herase, hrun⟩ := hrun
      obtain ⟨_, rfl⟩ := Transaction.pure_ok.mp hrun
      have hkey : row.id = userId := Table.keyOf_of_get? hrow
      subst hkey
      refine ⟨row, rfl, hrow, by simpa using hversion, ?_⟩
      rw [modifyTables_ok herase, (revokeAccounts_ok hrevoke).1, modifyTables_ok hgroups]

/-- What the callback of `mutateAccountSecurity` makes of the row. -/
def patched (lower : LowerCase) (patches : List DataLayer.Patch) (row : UserRow) : UserRow :=
  patches.foldl (fun row patch => Write.apply lower (.updateUser patch) row) row

theorem patches_ok {id : Uuid} {patches : List DataLayer.Patch}
    (h : (forM patches fun patch => updateRow lower refuses id (.updateUser patch)).exec s =
      (.ok ⟨⟩, s')) :
    RowChanged id (patched lower patches) s.tables s'.tables := by
  refine Transaction.forM_ok
    (fun done (t : Store) => RowChanged id (patched lower done) s.tables t.tables) ?_
    (RowChanged.refl id s.tables) h
  intro done patch t t' hdone hstep
  have hnext := hdone.trans (updateRow_ok hstep).2
  have hfold : patched lower (done ++ [patch]) =
      fun row => Write.apply lower (.updateUser patch) (patched lower done row) := by
    funext row
    rw [patched, List.foldl_append]
    rfl
  rw [hfold]
  exact hnext

theorem mutateAccountSecurity_ok {realm : String} {id : Uuid} {patches : List DataLayer.Patch}
    {applied : Bool} {u : Unit}
    (h : (mutateAccountSecurity lower refuses realm id patches applied).exec s = (.ok u, s')) :
    s'.tables = s.tables ∨ RowChanged id (patched lower patches) s.tables s'.tables ∨
      RowChanged id (fun row => Write.apply lower .bumpSecurityVersion (patched lower patches row))
        s.tables s'.tables := by
  have hrun := Transaction.atomically_ok.mp h
  rw [Transaction.bind_ok] at hrun
  obtain ⟨t, s₁, hget, hrun⟩ := hrun
  obtain ⟨rfl, rfl⟩ := Transaction.get_ok.mp hget
  split at hrun
  · obtain ⟨_, rfl⟩ := Transaction.pure_ok.mp hrun
    exact .inl rfl
  · rw [Transaction.bind_ok] at hrun
    obtain ⟨_, s₁, hpatches, hrun⟩ := hrun
    have hpatched := patches_ok hpatches
    cases applied with
    | false =>
      obtain ⟨_, rfl⟩ := Transaction.pure_ok.mp hrun
      exact .inr (.inl hpatched)
    | true =>
      rw [if_pos rfl, Transaction.bind_ok] at hrun
      obtain ⟨_, s₂, hbump, hrevoke⟩ := hrun
      rw [(revokeAccounts_ok hrevoke).1]
      exact .inr (.inr (hpatched.trans (updateRow_ok hbump).2))

theorem deleteAccount_ok {realm : String} {id : Uuid} {u : Unit}
    (h : (deleteAccount realm id).exec s = (.ok u, s')) :
    s'.tables = s.tables ∨ s'.tables = eraseUser id s.tables := by
  have hrun := Transaction.atomically_ok.mp h
  rw [Transaction.bind_ok] at hrun
  obtain ⟨t, s₁, hget, hrun⟩ := hrun
  obtain ⟨rfl, rfl⟩ := Transaction.get_ok.mp hget
  split at hrun
  · obtain ⟨_, rfl⟩ := Transaction.pure_ok.mp hrun
    exact .inl rfl
  · rw [Transaction.bind_ok] at hrun
    obtain ⟨_, s₁, hrevoke, herase⟩ := hrun
    rw [modifyTables_ok herase, (revokeAccounts_ok hrevoke).1]
    exact .inr rfl

end

end AuthMe.Scim

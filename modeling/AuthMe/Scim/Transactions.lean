import AuthMe.Adapters.Postgres
import AuthMe.Scim.Membership
import AuthMe.Transition.Transaction

/-!
# Transactions on Groups

`createGroup`, `replaceGroup` and `deleteGroup` of `src/src/repositories/scim-repository.js`, statement
by statement, as transactions on the rows of a realm and on `oidc_records`. A statement that the
schema refuses fails, and `withTransaction` rolls back.
-/

namespace AuthMe.Scim

open Adapters (Key)
open Adapters.Postgres (OidcRow)

/-- The rows of a realm, and the artifacts of all realms. -/
structure Store where
  tables : Tables
  records : OrderedMap Key OidcRow

/-! ## Errors -/

inductive RepositoryCode
  | uniqueness
  | invalidValue
  | notFound
  | versionMismatch
  deriving DecidableEq

/-- The errors of PostgreSQL, by their codes. -/
inductive DatabaseError
  /-- 23505 -/
  | uniqueViolation
  /-- 23503 -/
  | foreignKeyViolation
  /-- 22P02 -/
  | invalidTextRepresentation
  /-- 23514 -/
  | checkViolation
  deriving DecidableEq

inductive ScimError
  | repository (code : RepositoryCode) (message : String)
  | database (error : DatabaseError)
  deriving DecidableEq

def translateConstraint (resourceType : String) : ScimError → ScimError
  | .database .uniqueViolation => .repository .uniqueness
      (resourceType ++ " userName, displayName, email, or externalId already exists in this realm.")
  | .database .foreignKeyViolation =>
    .repository .invalidValue "A referenced User does not exist in this realm."
  | .database .invalidTextRepresentation =>
    .repository .invalidValue "A SCIM resource identifier is invalid."
  | error => error

abbrev Query (α : Type) := Transaction ScimError Store α

/-- `withTransaction(pool, operation)`. -/
def withTransaction {α : Type} (operation : Query α) : Query α := Transaction.atomically operation

/-- A change of the tables only. -/
def modifyTables (f : Tables → Tables) : Query Unit := modify fun s => { s with tables := f s.tables }

/-! ## Artifacts -/

/-- `payload ? 'accountId' AND payload->>'accountId'=ANY($2::text[])`. -/
def OfAccounts (accountIds : List String) (row : OidcRow) : Prop :=
  ∃ a ∈ accountIds, row.payload.accountId = some a

instance (accountIds : List String) (row : OidcRow) : Decidable (OfAccounts accountIds row) :=
  inferInstanceAs (Decidable (∃ a ∈ accountIds, row.payload.accountId = some a))

/-- `account_grants`. -/
def accountGrants (realm : String) (accountIds : List String) (records : OrderedMap Key OidcRow) :
    List String :=
  (records.entries.filter fun entry => entry.1.realm = realm ∧ entry.1.model = "Grant" ∧
    OfAccounts accountIds entry.2).map fun entry => entry.1.id

/-- `doomed`. -/
def Doomed (realm : String) (accountIds : List String) (records : OrderedMap Key OidcRow) (key : Key)
    (row : OidcRow) : Prop :=
  key.realm = realm ∧ (OfAccounts accountIds row ∨
    ∃ g ∈ accountGrants realm accountIds records, row.grantId = some g)

instance (realm : String) (accountIds : List String) (records : OrderedMap Key OidcRow) (key : Key)
    (row : OidcRow) : Decidable (Doomed realm accountIds records key row) :=
  inferInstanceAs (Decidable (_ ∧ (_ ∨ _)))

/-- `revokeAccounts(client, realm, accountIds)`. -/
def revokeAccounts (realm : String) (accountIds : List String) : Query Unit :=
  if accountIds = [] then pure ()
  else modify fun s =>
    { s with records := s.records.filter fun key row => !Doomed realm accountIds s.records key row }

/-! ## Groups and members -/

variable (db : Database)

/-- The `CHECK` constraints of `scim_groups`. -/
def checkGroup (row : GroupRow) : Bool :=
  let length := (btrim row.displayName).toList.length
  1 ≤ length && length ≤ 256 && row.externalId.all fun externalId => externalId.toList.length ≤ 256

/-- Another row has the name or the identifier of the client. -/
def groupTaken (t : Tables) (row : GroupRow) : Bool :=
  t.groups.rows.any fun other => other.id ≠ row.id &&
    (db.lower other.displayName = db.lower row.displayName ||
      (other.externalId.isSome && other.externalId = row.externalId))

/-- The row, if the constraints let it through. -/
def writeGroup (row : GroupRow) : Query Unit := do
  let s ← get
  if !checkGroup row then throw (.database .checkViolation) else
  if groupTaken db s.tables row then throw (.database .uniqueViolation) else
  modifyTables fun t => { t with groups := t.groups.insert row }

/-- `INSERT INTO scim_groups ...`. -/
def insertGroup (row : GroupRow) : Query Unit := do
  let s ← get
  if (s.tables.groups.get? row.id).isSome then throw (.database .uniqueViolation) else
  writeGroup db row

/-- `INSERT INTO scim_group_members ...`. -/
def insertMember (groupId userId : Uuid) : Query Unit := do
  let s ← get
  if s.tables.isMember groupId userId then throw (.database .uniqueViolation) else
  if (s.tables.groups.get? groupId).isNone ∨ (s.tables.users.get? userId).isNone then
    throw (.database .foreignKeyViolation) else
  modifyTables fun t => { t with members := t.members ++ [⟨groupId, userId⟩] }

/-- `DELETE FROM scim_group_members WHERE realm_name=$1 AND group_id=$2`. -/
def deleteMembers (groupId : Uuid) : Query Unit :=
  modifyTables fun t => { t with members := t.members.filter fun m => m.groupId ≠ groupId }

/-- `#replaceMembers`. What it returns is used as a set of users. -/
def replaceMembers (groupId : Uuid) (members : List String) : Query (List Uuid) := do
  match members.mapM Uuid.parse with
  | none => throw (.repository .invalidValue "Group members must be distinct User identifiers.")
  | some ids =>
    if ¬members.Nodup then
      throw (.repository .invalidValue "Group members must be distinct User identifiers.") else
    let s ← get
    if (s.tables.users.rows.filter fun row => ids.contains row.id).length ≠ ids.length then
      throw (.repository .invalidValue "A Group member is not a User in this realm.") else
    deleteMembers groupId
    forM ids fun userId => insertMember groupId userId
    return (membersOf s.tables groupId ++ ids).eraseDups

/-- The trigger `users_version_scim_resource`, for the rows of a statement. -/
def versionUsers (userIds : List Uuid) (t : Tables) : Tables :=
  { t with
    users := t.users.update (fun row => userIds.contains row.id)
      (fun row => { row with version := row.version + 1 }) fun _ => rfl }

/-- `#syncUserGroups`. -/
def syncGroups (realm : String) (userIds : List Uuid) : Query Unit := do
  let s ← get
  let synced := syncUserGroups db s.tables userIds
  modifyTables fun _ => versionUsers synced.2 synced.1
  revokeAccounts realm (synced.2.map Uuid.text)

/-- `#group`, of a row that is there. -/
def readGroup (id : Uuid) : Query (Option GroupRecord) := do
  let s ← get
  return (s.tables.groups.get? id).map (rowToGroup s.tables)

/-! ## The operations -/

/-- `createGroup(realm, attributes)`, where `randomUUID` gives `id`. -/
def createGroup (realm : String) (id : Uuid) (attributes : Group) : Query (Option GroupRecord) :=
  Transaction.mapError (translateConstraint "Group") <| withTransaction do
    insertGroup db ⟨id, attributes.externalId.text?, attributes.displayName, 1⟩
    let affected ← replaceMembers id attributes.members
    syncGroups db realm affected
    readGroup id

/-- The statements of `replaceGroup`. -/
def replaceGroupRows (realm : String) (id : Uuid) (attributes : Group) (expectedVersion : Nat) :
    Query (Option GroupRecord) := do
  let s ← get
  match s.tables.groups.get? id with
  | none => throw (.repository .notFound "The SCIM Group does not exist.")
  | some row =>
    if row.version ≠ expectedVersion then
      throw (.repository .versionMismatch "The SCIM Group changed since it was read.") else
    writeGroup db ⟨id, attributes.externalId.text?, attributes.displayName, row.version + 1⟩
    let affected ← replaceMembers id attributes.members
    syncGroups db realm affected
    readGroup id

/-- `replaceGroup(realm, id, attributes, expectedVersion)`. -/
def replaceGroup (realm id : String) (attributes : Group) (expectedVersion : Nat) :
    Query (Option GroupRecord) :=
  match Uuid.parse id with
  | none => throw (.repository .notFound "The requested SCIM Group does not exist.")
  | some id =>
    Transaction.mapError (translateConstraint "Group") <| withTransaction <|
      replaceGroupRows db realm id attributes expectedVersion

/-- `DELETE FROM scim_groups ...`; the rows of `scim_group_members` go with it. -/
def eraseGroup (id : Uuid) (t : Tables) : Tables :=
  { t with groups := t.groups.erase id, members := t.members.filter fun m => m.groupId ≠ id }

/-- The statements of `deleteGroup`. -/
def deleteGroupRows (realm : String) (id : Uuid) (expectedVersion : Nat) :
    Query (Option GroupRecord) := do
  let s ← get
  match s.tables.groups.get? id with
  | none => throw (.repository .notFound "The requested SCIM Group does not exist.")
  | some row =>
    if row.version ≠ expectedVersion then
      throw (.repository .versionMismatch "The SCIM Group changed since it was read.") else
    modifyTables (eraseGroup id)
    syncGroups db realm (membersOf s.tables id)
    return some (rowToGroup s.tables row)

/-- `deleteGroup(realm, id, expectedVersion)`. -/
def deleteGroup (realm id : String) (expectedVersion : Nat) : Query (Option GroupRecord) :=
  match Uuid.parse id with
  | none => throw (.repository .notFound "The requested SCIM Group does not exist.")
  | some id => withTransaction <| deleteGroupRows db realm id expectedVersion

/-! ## What the statements do -/

section

variable {db} {s s' : Store}

theorem modifyTables_ok {f : Tables → Tables} {u : Unit}
    (h : (modifyTables f).exec s = (.ok u, s')) : s' = { s with tables := f s.tables } :=
  (Transaction.modify_ok.mp h).symm

theorem writeGroup_ok {row : GroupRow} {u : Unit} (h : (writeGroup db row).exec s = (.ok u, s')) :
    checkGroup row = true ∧ groupTaken db s.tables row = false ∧
      s' = { s with tables := { s.tables with groups := s.tables.groups.insert row } } := by
  rw [writeGroup, Transaction.bind_ok] at h
  obtain ⟨t, s₁, hget, h⟩ := h
  obtain ⟨rfl, rfl⟩ := Transaction.get_ok.mp hget
  obtain ⟨hcheck, h⟩ := Transaction.unless_ok.mp h
  obtain ⟨htaken, h⟩ := Transaction.unless_ok.mp h
  exact ⟨by simpa using hcheck, by simpa using htaken, modifyTables_ok h⟩

theorem insertGroup_ok {row : GroupRow} {u : Unit} (h : (insertGroup db row).exec s = (.ok u, s')) :
    s.tables.groups.get? row.id = none ∧ checkGroup row = true ∧
      groupTaken db s.tables row = false ∧
      s' = { s with tables := { s.tables with groups := s.tables.groups.insert row } } := by
  rw [insertGroup, Transaction.bind_ok] at h
  obtain ⟨t, s₁, hget, h⟩ := h
  obtain ⟨rfl, rfl⟩ := Transaction.get_ok.mp hget
  obtain ⟨hnew, h⟩ := Transaction.unless_ok.mp h
  exact ⟨by simpa using hnew, writeGroup_ok h⟩

theorem insertMember_ok {groupId userId : Uuid} {u : PUnit}
    (h : (insertMember groupId userId).exec s = (.ok u, s')) :
    (s.tables.groups.get? groupId).isSome ∧ (s.tables.users.get? userId).isSome ∧
      s.tables.isMember groupId userId = false ∧
      s' = { s with tables := { s.tables with members := s.tables.members ++ [⟨groupId, userId⟩] } } := by
  rw [insertMember, Transaction.bind_ok] at h
  obtain ⟨t, s₁, hget, h⟩ := h
  obtain ⟨rfl, rfl⟩ := Transaction.get_ok.mp hget
  obtain ⟨hnew, h⟩ := Transaction.unless_ok.mp h
  obtain ⟨hkeys, h⟩ := Transaction.unless_ok.mp h
  rw [not_or] at hkeys
  refine ⟨?_, ?_, by simpa using hnew, modifyTables_ok h⟩
  · simpa [Option.isSome_iff_ne_none] using hkeys.1
  · simpa [Option.isSome_iff_ne_none] using hkeys.2

theorem mem_membersOf {t : Tables} {groupId u : Uuid} :
    u ∈ membersOf t groupId ↔ t.isMember groupId u = true := by
  simp only [membersOf, List.mem_insertionSort, List.mem_map, List.mem_filter, decide_eq_true_eq,
    Tables.isMember, List.contains_iff_mem]
  constructor
  · rintro ⟨m, ⟨hm, rfl⟩, rfl⟩
    exact hm
  · intro hm
    exact ⟨_, ⟨hm, rfl⟩, rfl⟩

/-- The members of one group are these users now. -/
structure MembersReplaced (groupId : Uuid) (ids : List Uuid) (t t' : Tables) : Prop where
  users : t'.users = t.users
  groups : t'.groups = t.groups
  member : ∀ g u, t'.isMember g u = true ↔ if g = groupId then u ∈ ids else t.isMember g u = true
  nodup : t.members.Nodup → t'.members.Nodup
  groupExists : ids ≠ [] → (t.groups.get? groupId).isSome
  userExists : ∀ u ∈ ids, (t.users.get? u).isSome

theorem insertMembers_ok {groupId : Uuid} {ids : List Uuid}
    (h : (deleteMembers groupId >>= fun _ => forM ids fun userId => insertMember groupId userId).exec
      s = (.ok ⟨⟩, s')) :
    s'.records = s.records ∧ MembersReplaced groupId ids s.tables s'.tables := by
  rw [Transaction.bind_ok] at h
  obtain ⟨_, s₁, hdelete, hinsert⟩ := h
  have hs₁ := modifyTables_ok hdelete
  refine Transaction.forM_ok (fun done t => t.records = s.records ∧
    MembersReplaced groupId done s.tables t.tables) ?_ ?_ hinsert
  · rintro done userId t t' ⟨hrecords, hdone⟩ hstep
    obtain ⟨hgroup, huser, hnew, rfl⟩ := insertMember_ok hstep
    refine ⟨hrecords, hdone.users, hdone.groups, ?_, ?_, ?_, ?_⟩
    · intro g u
      have hmember : (⟨g, u⟩ : Membership) ∈ t.tables.members ++ [⟨groupId, userId⟩] ↔
          t.tables.isMember g u = true ∨ g = groupId ∧ u = userId := by
        simp [Tables.isMember]
      simp only [Tables.isMember, List.contains_iff_mem] at hmember ⊢
      rw [hmember]
      have hold := hdone.member g u
      simp only [Tables.isMember, List.contains_iff_mem] at hold
      rw [hold]
      by_cases hg : g = groupId <;> simp [hg]
    · intro hnodup
      rw [List.nodup_append]
      refine ⟨hdone.nodup hnodup, List.nodup_singleton _, ?_⟩
      intro m hm m' hm' heq
      rw [List.mem_singleton.mp hm'] at heq
      rw [heq] at hm
      rw [Tables.isMember, List.contains_iff_mem.mpr hm] at hnew
      cases hnew
    · intro _
      rw [← hdone.groups]
      exact hgroup
    · intro u hu
      rcases List.mem_append.mp hu with hu | hu
      · exact hdone.userExists u hu
      · rw [List.mem_singleton.mp hu, ← hdone.users]
        exact huser
  · rw [hs₁]
    refine ⟨rfl, rfl, rfl, ?_, fun hnodup => hnodup.filter _, fun hne => absurd rfl hne, ?_⟩
    · intro g u
      simp only [Tables.isMember, List.contains_iff_mem, List.mem_filter, decide_eq_true_eq]
      by_cases hg : g = groupId <;> simp [hg]
    · intro u hu
      cases hu

theorem replaceMembers_ok {groupId : Uuid} {members : List String} {affected : List Uuid}
    (h : (replaceMembers groupId members).exec s = (.ok affected, s')) :
    ∃ ids, members.mapM Uuid.parse = some ids ∧
      (∀ u, u ∈ affected ↔ s.tables.isMember groupId u = true ∨ u ∈ ids) ∧
      s'.records = s.records ∧ MembersReplaced groupId ids s.tables s'.tables := by
  rw [replaceMembers] at h
  cases hids : members.mapM Uuid.parse with
  | none =>
    rw [hids] at h
    exact absurd h Transaction.throw_ok
  | some ids =>
    rw [hids] at h
    obtain ⟨_, h⟩ := Transaction.unless_ok.mp h
    rw [Transaction.bind_ok] at h
    obtain ⟨t, s₁, hget, h⟩ := h
    obtain ⟨rfl, rfl⟩ := Transaction.get_ok.mp hget
    obtain ⟨_, h⟩ := Transaction.unless_ok.mp h
    rw [Transaction.bind_ok] at h
    obtain ⟨_, s₁, hdelete, h⟩ := h
    rw [Transaction.bind_ok] at h
    obtain ⟨_, s₂, hinsert, h⟩ := h
    obtain ⟨rfl, rfl⟩ := Transaction.pure_ok.mp h
    obtain ⟨hrecords, hreplaced⟩ := insertMembers_ok
      (Transaction.bind_ok.mpr ⟨_, s₁, hdelete, hinsert⟩)
    refine ⟨ids, rfl, ?_, hrecords, hreplaced⟩
    intro u
    rw [List.mem_eraseDups, List.mem_append, mem_membersOf]

theorem revokeAccounts_ok {realm : String} {accountIds : List String} {u : Unit}
    (h : (revokeAccounts realm accountIds).exec s = (.ok u, s')) :
    s'.tables = s.tables ∧ ∀ k, s'.records.get? k =
      (s.records.get? k).filter fun row => !Doomed realm accountIds s.records k row := by
  rw [revokeAccounts] at h
  split at h
  · rename_i hnone
    obtain ⟨_, rfl⟩ := Transaction.pure_ok.mp h
    refine ⟨rfl, ?_⟩
    intro k
    cases hrow : s.records.get? k with
    | none => rfl
    | some row =>
      have hno : ¬Doomed realm accountIds s.records k row := by
        rw [hnone]
        simp [Doomed, OfAccounts, accountGrants]
      rw [Option.filter_some, if_pos (by simpa using hno)]
  · have hs' := Transaction.modify_ok.mp h
    rw [← hs']
    refine ⟨rfl, ?_⟩
    intro k
    rw [OrderedMap.get?_filter]

/-- A user whose list has to be written. -/
def Outdated (db : Database) (t : Tables) (userIds : List Uuid) (u : Uuid) : Prop :=
  u ∈ userIds ∧ ∃ row, t.users.get? u = some row ∧ row.groups ≠ desiredGroups db t u

theorem mem_synced {t : Tables} {userIds : List Uuid} {u : Uuid} :
    u ∈ (syncUserGroups db t userIds).2 ↔ Outdated db t userIds u := by
  simp only [syncUserGroups, List.mem_map, List.mem_filter, isOutdated, Bool.and_eq_true,
    List.contains_iff_mem, decide_eq_true_eq]
  constructor
  · rintro ⟨row, ⟨hrow, hmem, hne⟩, rfl⟩
    exact ⟨hmem, row, Table.mem_rows_iff.mp hrow, hne⟩
  · rintro ⟨hmem, row, hrow, hne⟩
    have hid := Table.keyOf_of_get? hrow
    subst hid
    exact ⟨row, ⟨Table.mem_rows_iff.mpr hrow, hmem, hne⟩, rfl⟩

/-- What `#syncUserGroups` does to the rows and the artifacts. -/
structure Synced (db : Database) (realm : String) (userIds : List Uuid) (s s' : Store) : Prop where
  groups : s'.tables.groups = s.tables.groups
  members : s'.tables.members = s.tables.members
  outdated : ∀ u row, s.tables.users.get? u = some row → Outdated db s.tables userIds u →
    s'.tables.users.get? u = some { row with
      groups := desiredGroups db s.tables u
      securityVersion := row.securityVersion + 1
      version := row.version + 1 }
  current : ∀ u, ¬Outdated db s.tables userIds u →
    s'.tables.users.get? u = s.tables.users.get? u
  records : ∀ k, s'.records.get? k = (s.records.get? k).filter fun row =>
    !Doomed realm ((syncUserGroups db s.tables userIds).2.map Uuid.text) s.records k row

theorem syncGroups_ok {realm : String} {userIds : List Uuid} {u : Unit}
    (h : (syncGroups db realm userIds).exec s = (.ok u, s')) : Synced db realm userIds s s' := by
  rw [syncGroups, Transaction.bind_ok] at h
  obtain ⟨t, s₁, hget, h⟩ := h
  obtain ⟨rfl, rfl⟩ := Transaction.get_ok.mp hget
  rw [Transaction.bind_ok] at h
  obtain ⟨_, s₁, hmodify, h⟩ := h
  have hs₁ := modifyTables_ok hmodify
  obtain ⟨htables, hrecords⟩ := revokeAccounts_ok h
  rw [hs₁] at htables hrecords
  refine ⟨by rw [htables]; rfl, by rw [htables]; rfl, ?_, ?_, hrecords⟩
  · intro v row hrow hout
    obtain ⟨hmem, row', hrow', hne⟩ := hout
    cases hrow.symm.trans hrow'
    have hid : row.id = v := Table.keyOf_of_get? hrow
    have hold : isOutdated db s.tables userIds row = true := by
      simp [isOutdated, hid, hmem, hne]
    have hnew : v ∈ (syncUserGroups db s.tables userIds).2 := mem_synced.mpr ⟨hmem, row, hrow, hne⟩
    rw [htables]
    simp only [versionUsers, syncUserGroups, Table.get?_update, hrow, Option.map_some, hold, if_true]
    rw [if_pos (by rw [List.contains_iff_mem, hid]; exact hnew), hid]
  · intro v hout
    rw [htables]
    simp only [versionUsers, syncUserGroups, Table.get?_update]
    cases hrow : s.tables.users.get? v with
    | none => rfl
    | some row =>
      have hid : row.id = v := Table.keyOf_of_get? hrow
      have hold : isOutdated db s.tables userIds row = false := by
        rw [← Bool.not_eq_true]
        intro hold
        simp only [isOutdated, hid, Bool.and_eq_true, List.contains_iff_mem,
          decide_eq_true_eq] at hold
        exact hout ⟨hold.1, row, hrow, hold.2⟩
      have hnew : v ∉ (syncUserGroups db s.tables userIds).2 := fun hmem => hout (mem_synced.mp hmem)
      simp only [Option.map_some, hold, Bool.false_eq_true, if_false]
      rw [if_neg (by rw [List.contains_iff_mem, hid]; exact hnew)]

/-- The row of a group is written, its members are replaced, and the users are synchronised. -/
def Stored (db : Database) (realm : String) (row : GroupRow) (members : List String)
    (s s' : Store) : Prop :=
  ∃ ids affected t, members.mapM Uuid.parse = some ids ∧
    (∀ u, u ∈ affected ↔ s.tables.isMember row.id u = true ∨ u ∈ ids) ∧ t.records = s.records ∧
    MembersReplaced row.id ids { s.tables with groups := s.tables.groups.insert row } t.tables ∧
    Synced db realm affected t s'

theorem stored_ok {realm : String} {row : GroupRow} {members : List String}
    {answer : Option GroupRecord}
    (h : (do
      let affected ← replaceMembers row.id members
      syncGroups db realm affected
      readGroup row.id).exec
        { s with tables := { s.tables with groups := s.tables.groups.insert row } } =
          (.ok answer, s')) :
    Stored db realm row members s s' := by
  rw [Transaction.bind_ok] at h
  obtain ⟨affected, t, hmembers, h⟩ := h
  rw [Transaction.bind_ok] at h
  obtain ⟨_, s₂, hsync, hread⟩ := h
  obtain ⟨ids, hids, haffected, hrecords, hreplaced⟩ := replaceMembers_ok hmembers
  rw [readGroup, Transaction.bind_ok] at hread
  obtain ⟨_, s₃, hget, hread⟩ := hread
  obtain ⟨rfl, rfl⟩ := Transaction.get_ok.mp hget
  obtain ⟨_, rfl⟩ := Transaction.pure_ok.mp hread
  exact ⟨ids, affected, t, hids, haffected, hrecords, hreplaced, syncGroups_ok hsync⟩

theorem createGroup_ok {realm : String} {id : Uuid} {attributes : Group}
    {answer : Option GroupRecord}
    (h : (createGroup db realm id attributes).exec s = (.ok answer, s')) :
    s.tables.groups.get? id = none ∧
      Stored db realm ⟨id, attributes.externalId.text?, attributes.displayName, 1⟩
        attributes.members s s' := by
  have hrun := Transaction.atomically_ok.mp (Transaction.mapError_ok.mp h)
  rw [Transaction.bind_ok] at hrun
  obtain ⟨_, s₁, hinsert, hrun⟩ := hrun
  obtain ⟨hnew, _, _, rfl⟩ := insertGroup_ok hinsert
  exact ⟨hnew, stored_ok hrun⟩

theorem replaceGroup_ok {realm id : String} {attributes : Group} {expectedVersion : Nat}
    {answer : Option GroupRecord}
    (h : (replaceGroup db realm id attributes expectedVersion).exec s = (.ok answer, s')) :
    ∃ row, Uuid.parse id = some row.id ∧ s.tables.groups.get? row.id = some row ∧
      row.version = expectedVersion ∧
      Stored db realm ⟨row.id, attributes.externalId.text?, attributes.displayName, row.version + 1⟩
        attributes.members s s' := by
  rw [replaceGroup] at h
  cases hid : Uuid.parse id with
  | none =>
    rw [hid] at h
    exact absurd h Transaction.throw_ok
  | some groupId =>
    rw [hid] at h
    have hrun := Transaction.atomically_ok.mp (Transaction.mapError_ok.mp h)
    rw [replaceGroupRows, Transaction.bind_ok] at hrun
    obtain ⟨t, s₁, hget, hrun⟩ := hrun
    obtain ⟨rfl, rfl⟩ := Transaction.get_ok.mp hget
    cases hrow : s.tables.groups.get? groupId with
    | none =>
      rw [hrow] at hrun
      exact absurd hrun Transaction.throw_ok
    | some row =>
      rw [hrow] at hrun
      obtain ⟨hversion, hrun⟩ := Transaction.unless_ok.mp hrun
      rw [Transaction.bind_ok] at hrun
      obtain ⟨_, s₁, hwrite, hrun⟩ := hrun
      obtain ⟨_, _, rfl⟩ := writeGroup_ok hwrite
      have hkey : row.id = groupId := Table.keyOf_of_get? hrow
      subst hkey
      exact ⟨row, rfl, hrow, by simpa using hversion, stored_ok hrun⟩

theorem deleteGroup_ok {realm id : String} {expectedVersion : Nat} {answer : Option GroupRecord}
    (h : (deleteGroup db realm id expectedVersion).exec s = (.ok answer, s')) :
    ∃ row, Uuid.parse id = some row.id ∧ s.tables.groups.get? row.id = some row ∧
      row.version = expectedVersion ∧
      Synced db realm (membersOf s.tables row.id)
        { s with tables := eraseGroup row.id s.tables } s' := by
  rw [deleteGroup] at h
  cases hid : Uuid.parse id with
  | none =>
    rw [hid] at h
    exact absurd h Transaction.throw_ok
  | some groupId =>
    rw [hid] at h
    have hrun := Transaction.atomically_ok.mp h
    rw [deleteGroupRows, Transaction.bind_ok] at hrun
    obtain ⟨t, s₁, hget, hrun⟩ := hrun
    obtain ⟨rfl, rfl⟩ := Transaction.get_ok.mp hget
    cases hrow : s.tables.groups.get? groupId with
    | none =>
      rw [hrow] at hrun
      exact absurd hrun Transaction.throw_ok
    | some row =>
      rw [hrow] at hrun
      obtain ⟨hversion, hrun⟩ := Transaction.unless_ok.mp hrun
      rw [Transaction.bind_ok] at hrun
      obtain ⟨_, s₁, herase, hrun⟩ := hrun
      rw [modifyTables_ok herase, Transaction.bind_ok] at hrun
      obtain ⟨_, s₂, hsync, hrun⟩ := hrun
      obtain ⟨_, rfl⟩ := Transaction.pure_ok.mp hrun
      have hkey : row.id = groupId := Table.keyOf_of_get? hrow
      subst hkey
      exact ⟨row, rfl, hrow, by simpa using hversion, syncGroups_ok hsync⟩

end

end AuthMe.Scim

import AuthMe.Scim.Transactions

/-!
# Which sessions a Group change revokes

A transaction on a Group writes the column `groups` of the users whose list becomes another one. Each
of them gets the next security version and loses its artifacts, the ones under its Grants included;
nobody else gets a new version, and no other artifact is lost (`group_change_revokes`).
-/

namespace AuthMe.Scim

open Adapters (Key)
open Adapters.Postgres (OidcRow)

/-- The operations on Groups. `create` has the identifier that is drawn for it. -/
inductive GroupOperation
  | create (id : Uuid) (attributes : Group)
  | replace (id : String) (attributes : Group) (expectedVersion : Nat)
  | delete (id : String) (expectedVersion : Nat)

def GroupOperation.perform (db : Database) (realm : String) :
    GroupOperation → Query (Option GroupRecord)
  | create id attributes => createGroup db realm id attributes
  | replace id attributes expectedVersion => replaceGroup db realm id attributes expectedVersion
  | delete id expectedVersion => deleteGroup db realm id expectedVersion

/-- The artifact is the user's by its account, or by the account of its Grant. -/
def BoundTo (realm : String) (u : Uuid) (records : OrderedMap Key OidcRow) (key : Key)
    (row : OidcRow) : Prop :=
  key.realm = realm ∧ (row.payload.accountId = some u.text ∨
    ∃ g grant, records.get? ⟨realm, "Grant", g⟩ = some grant ∧
      grant.payload.accountId = some u.text ∧ row.grantId = some g)

/-- The list in the column of the user is another one. -/
def ListChanged (s s' : Store) (u : Uuid) : Prop := groupsColumn s'.tables u ≠ groupsColumn s.tables u

/-- What a transaction on a Group does to a user, and to the artifacts of all realms. -/
structure Revokes (realm : String) (s s' : Store) : Prop where
  user : ∀ u row, s.tables.users.get? u = some row → ∃ row', s'.tables.users.get? u = some row' ∧
    (row'.groups ≠ row.groups → row'.securityVersion = row.securityVersion + 1 ∧
      ∀ key record, s'.records.get? key = some record → ¬BoundTo realm u s.records key record) ∧
    (row'.groups = row.groups → row'.securityVersion = row.securityVersion)
  noUser : ∀ u, s.tables.users.get? u = none → s'.tables.users.get? u = none
  lost : ∀ key record, s.records.get? key = some record →
    (∃ u, ListChanged s s' u ∧ BoundTo realm u s.records key record) → s'.records.get? key = none
  kept : ∀ key record, s.records.get? key = some record →
    (¬∃ u, ListChanged s s' u ∧ BoundTo realm u s.records key record) →
      s'.records.get? key = some record
  noRecord : ∀ key, s.records.get? key = none → s'.records.get? key = none

/-! ## What is revoked -/

section

variable {realm : String} {records : OrderedMap Key OidcRow} {key : Key} {row : OidcRow}

theorem mem_accountGrants {accountIds : List String} {g : String} :
    g ∈ accountGrants realm accountIds records ↔
      ∃ grant, records.get? ⟨realm, "Grant", g⟩ = some grant ∧ OfAccounts accountIds grant := by
  simp only [accountGrants, List.mem_map, List.mem_filter, decide_eq_true_eq, Prod.exists]
  constructor
  · rintro ⟨⟨realm', model, id⟩, grant, ⟨hmem, hrealm, hmodel, hof⟩, hid⟩
    dsimp only at hrealm hmodel hid
    subst hrealm hmodel hid
    exact ⟨grant, OrderedMap.mem_entries_iff.mp hmem, hof⟩
  · rintro ⟨grant, hgrant, hof⟩
    exact ⟨_, grant, ⟨OrderedMap.mem_entries_iff.mpr hgrant, rfl, rfl, hof⟩, rfl⟩

theorem doomed_iff {userIds : List Uuid} :
    Doomed realm (userIds.map Uuid.text) records key row ↔
      ∃ u ∈ userIds, BoundTo realm u records key row := by
  have hof : ∀ row' : OidcRow, OfAccounts (userIds.map Uuid.text) row' ↔
      ∃ u ∈ userIds, row'.payload.accountId = some u.text := by
    intro row'
    simp only [OfAccounts, List.mem_map, exists_exists_and_eq_and]
  simp only [Doomed, BoundTo, mem_accountGrants, hof]
  constructor
  · rintro ⟨hrealm, ⟨u, hu, haccount⟩ | ⟨g, ⟨grant, hgrant, u, hu, haccount⟩, hg⟩⟩
    · exact ⟨u, hu, hrealm, .inl haccount⟩
    · exact ⟨u, hu, hrealm, .inr ⟨g, grant, hgrant, haccount, hg⟩⟩
  · rintro ⟨u, hu, hrealm, haccount | ⟨g, grant, hgrant, haccount, hg⟩⟩
    · exact ⟨hrealm, .inl ⟨u, hu, haccount⟩⟩
    · exact ⟨hrealm, .inr ⟨g, ⟨grant, hgrant, u, hu, haccount⟩, hg⟩⟩

end

section

variable {db : Database} {realm : String} {s t s' : Store}

/-- The synchronisation is all that a transaction does to users and artifacts. -/
theorem perform_ok {op : GroupOperation} {answer : Option GroupRecord}
    (h : (op.perform db realm).exec s = (.ok answer, s')) :
    ∃ t userIds, t.records = s.records ∧ t.tables.users = s.tables.users ∧
      Synced db realm userIds t s' := by
  cases op with
  | create id attributes =>
    obtain ⟨_, ids, affected, t, _, _, hrecords, hreplaced, hsynced⟩ := createGroup_ok h
    exact ⟨t, affected, hrecords, hreplaced.users, hsynced⟩
  | replace id attributes expectedVersion =>
    obtain ⟨_, _, _, _, ids, affected, t, _, _, hrecords, hreplaced, hsynced⟩ := replaceGroup_ok h
    exact ⟨t, affected, hrecords, hreplaced.users, hsynced⟩
  | delete id expectedVersion =>
    obtain ⟨row, _, _, _, hsynced⟩ := deleteGroup_ok h
    exact ⟨{ s with tables := eraseGroup row.id s.tables }, _, rfl, rfl, hsynced⟩

/-- Exactly the users that the synchronisation writes get another list. -/
theorem Synced.listChanged {userIds : List Uuid} (h : Synced db realm userIds t s') (u : Uuid) :
    groupsColumn s'.tables u ≠ groupsColumn t.tables u ↔ Outdated db t.tables userIds u := by
  by_cases hout : Outdated db t.tables userIds u
  · obtain ⟨_, row, hrow, hne⟩ := hout
    rw [groupsColumn, h.outdated u row hrow ⟨‹_›, row, hrow, hne⟩, groupsColumn, hrow]
    exact ⟨fun _ => ⟨‹_›, row, hrow, hne⟩, fun _ => Ne.symm hne⟩
  · rw [groupsColumn, h.current u hout, groupsColumn]
    exact ⟨fun hne => absurd rfl hne, fun hyes => absurd hyes hout⟩

theorem Synced.revokes {userIds : List Uuid} (hrecords : t.records = s.records)
    (husers : t.tables.users = s.tables.users) (h : Synced db realm userIds t s') :
    Revokes realm s s' := by
  have hchanged : ∀ u, ListChanged s s' u ↔ Outdated db t.tables userIds u := by
    intro u
    rw [← h.listChanged, ListChanged, groupsColumn, groupsColumn, groupsColumn, husers]
  have hdoomed : ∀ key record,
      Doomed realm ((syncUserGroups db t.tables userIds).2.map Uuid.text) s.records key record ↔
        ∃ u, ListChanged s s' u ∧ BoundTo realm u s.records key record := by
    intro key record
    simp only [doomed_iff, mem_synced, hchanged]
  have hget := h.records
  rw [hrecords] at hget
  refine ⟨?_, ?_, ?_, ?_, ?_⟩
  · intro u row hrow
    by_cases hout : Outdated db t.tables userIds u
    · refine ⟨_, h.outdated u row (husers ▸ hrow) hout, ?_, ?_⟩
      · intro _
        refine ⟨rfl, ?_⟩
        intro key record hrecord hbound
        rw [hget] at hrecord
        obtain ⟨_, hkept⟩ := Option.filter_eq_some_iff.mp hrecord
        have hyes := (hdoomed key record).mpr ⟨u, (hchanged u).mpr hout, hbound⟩
        simp [hyes] at hkept
      · intro hsame
        have hne := (hchanged u).mpr hout
        rw [ListChanged, groupsColumn, h.outdated u row (husers ▸ hrow) hout, groupsColumn,
          hrow] at hne
        exact absurd hsame hne
    · refine ⟨row, (h.current u hout).trans (husers ▸ hrow), ?_, fun _ => rfl⟩
      exact fun hne => absurd rfl hne
  · intro u hnone
    have hout : ¬Outdated db t.tables userIds u := by
      rintro ⟨_, row, hrow, _⟩
      rw [husers, hnone] at hrow
      cases hrow
    rw [h.current u hout, husers, hnone]
  · intro key record hrecord hbound
    rw [hget, hrecord, Option.filter_some, if_neg]
    simpa using (hdoomed key record).mpr hbound
  · intro key record hrecord hbound
    rw [hget, hrecord, Option.filter_some, if_pos]
    simpa using fun hyes => hbound ((hdoomed key record).mp hyes)
  · intro key hnone
    rw [hget, hnone]
    rfl

theorem perform_error {op : GroupOperation} {e : ScimError}
    (h : (op.perform db realm).exec s = (.error e, s')) : s' = s := by
  cases op with
  | create id attributes =>
    obtain ⟨_, h⟩ := Transaction.mapError_error h
    exact Transaction.atomically_error h
  | replace id attributes expectedVersion =>
    have hrun : (replaceGroup db realm id attributes expectedVersion).exec s = (.error e, s') := h
    rw [replaceGroup] at hrun
    cases hid : Uuid.parse id with
    | none =>
      rw [hid] at hrun
      exact (Prod.mk.inj hrun).2.symm
    | some groupId =>
      rw [hid] at hrun
      obtain ⟨_, hrun⟩ := Transaction.mapError_error hrun
      exact Transaction.atomically_error hrun
  | delete id expectedVersion =>
    have hrun : (deleteGroup db realm id expectedVersion).exec s = (.error e, s') := h
    rw [deleteGroup] at hrun
    cases hid : Uuid.parse id with
    | none =>
      rw [hid] at hrun
      exact (Prod.mk.inj hrun).2.symm
    | some groupId =>
      rw [hid] at hrun
      exact Transaction.atomically_error hrun

end

/-- Every operation on a Group, from every state: if it fails it changes nothing, and otherwise
exactly the users whose list becomes another one get the next security version, and exactly their
artifacts are lost. -/
theorem group_change_revokes (db : Database) (realm : String) (op : GroupOperation) (s : Store) :
    match (op.perform db realm).exec s with
    | (.ok _, s') => Revokes realm s s'
    | (.error _, s') => s' = s := by
  cases h : (op.perform db realm).exec s with
  | mk answer s' =>
    cases answer with
    | ok record =>
      obtain ⟨t, userIds, hrecords, husers, hsynced⟩ := perform_ok h
      exact hsynced.revokes hrecords husers
    | error e => exact perform_error h

/-! ### An artifact of two users -/

def otherUser : UserRow :=
  { someUser with
    id := ⟨"3c6a9d0e-51f4-4d6c-9f0e-0d5b5a1f7a04", rfl⟩
    username := "bob"
    email := "bob@example.test"
    groups := ["/Red"] }

def grantOfOther : OidcRow :=
  ⟨{ accountId := some otherUser.id.text }, none, none, none, none, none, some 0, 0⟩

/-- An artifact of the first user under a Grant of the second one. -/
def sharedToken : OidcRow :=
  ⟨{ accountId := some someUser.id.text, grantId := some "g" }, none, none, some "g", none, none,
    some 0, 0⟩

/-- The second user is in a group. -/
def sharedGrant : Store where
  tables :=
    { users := (Table.empty.insert someUser).insert otherUser
      groups := Table.empty.insert (firstGroup "Red")
      members := [⟨(firstGroup "Red").id, otherUser.id⟩] }
  records := (OrderedMap.empty.set ⟨"master", "Grant", "g"⟩ grantOfOther).set
    ⟨"master", "AccessToken", "t"⟩ sharedToken

/-- The first user is in no group and loses the artifact with the Grant of the other one. -/
theorem same_list_loses_artifact :
    ∃ answer s', ((GroupOperation.delete (firstGroup "Red").id.text 1).perform asciiDatabase
        "master").exec sharedGrant = (.ok answer, s') ∧
      ¬ListChanged sharedGrant s' someUser.id ∧
      BoundTo "master" someUser.id sharedGrant.records ⟨"master", "AccessToken", "t"⟩ sharedToken ∧
      sharedGrant.records.get? ⟨"master", "AccessToken", "t"⟩ = some sharedToken ∧
      s'.records.get? ⟨"master", "AccessToken", "t"⟩ = none := by
  refine ⟨_, _, rfl, ?_, ⟨rfl, .inl rfl⟩, rfl, by decide⟩
  rw [ListChanged, not_not]
  decide

end AuthMe.Scim

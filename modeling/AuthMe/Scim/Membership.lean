import AuthMe.Scim.Rows

/-!
# Group claims

`#syncUserGroups` of `src/src/repositories/scim-repository.js` writes the column `groups` of the
users whose memberships have changed: one path for each of their Groups. A path is the name of the
Group with every `/` replaced by `-`, so the names `a/b` and `a-b`, which can exist together, have
one path; exactly then the lists do not tell the Groups apart (`group_claims`).
-/

namespace AuthMe.Scim

/-! ## The synchronisation -/

/-- `replace(text, '/', '-')`. -/
def replaceSlashes (s : String) : String :=
  String.ofList (s.toList.map fun c => if c = '/' then '-' else c)

/-- `'/' || replace(groups.display_name, '/', '-')`. -/
def groupPath (g : GroupRow) : String := "/" ++ replaceSlashes g.displayName

/-- The user is a member of the group. -/
def Tables.isMember (t : Tables) (groupId userId : Uuid) : Bool := t.members.contains ⟨groupId, userId⟩

/-- The groups of a user, `ORDER BY lower(groups.display_name)`. -/
def groupsOf (db : Database) (t : Tables) (userId : Uuid) : List GroupRow :=
  (t.groups.rows.filter fun g => t.isMember g.id userId).insertionSort fun g h =>
    db.precedes (db.lower g.displayName) (db.lower h.displayName)

/-- The list `desired.groups`. -/
def desiredGroups (db : Database) (t : Tables) (userId : Uuid) : List String :=
  (groupsOf db t userId).map groupPath

/-- A user of the list whose column is another one than it should be. -/
def isOutdated (db : Database) (t : Tables) (userIds : List Uuid) (row : UserRow) : Bool :=
  userIds.contains row.id && row.groups ≠ desiredGroups db t row.id

/-- `#syncUserGroups`, with the users whose artifacts it revokes. -/
def syncUserGroups (db : Database) (t : Tables) (userIds : List Uuid) : Tables × List Uuid :=
  ({ t with
    users := t.users.update (isOutdated db t userIds) (fun row => { row with
      groups := desiredGroups db t row.id
      securityVersion := row.securityVersion + 1 }) fun _ => rfl },
    (t.users.rows.filter (isOutdated db t userIds)).map UserRow.id)

/-- The list that the synchronisation leaves in the column of a user. -/
theorem groups_of_sync {db : Database} {t : Tables} {userIds : List Uuid} {u : Uuid} {row : UserRow}
    (hu : u ∈ userIds) (hrow : (syncUserGroups db t userIds).1.users.get? u = some row) :
    row.groups = desiredGroups db t u := by
  simp only [syncUserGroups, Table.get?_update] at hrow
  obtain ⟨old, hold, rfl⟩ := Option.map_eq_some_iff.mp hrow
  have hid : old.id = u := Table.keyOf_of_get? hold
  split
  · rw [hid]
  · rename_i hcurrent
    simp only [isOutdated, hid, List.contains_iff_mem.mpr hu, Bool.true_and, decide_eq_true_eq,
      not_not] at hcurrent
    exact hcurrent

/-! ## The law -/

variable {db : Database} {t : Tables} {u v : Uuid} {g h : GroupRow}

theorem mem_groupsOf : g ∈ groupsOf db t u ↔ g ∈ t.groups.rows ∧ t.isMember g.id u = true := by
  rw [groupsOf, List.mem_insertionSort, List.mem_filter]

theorem nodup_groupsOf (db : Database) (t : Tables) (u : Uuid) : (groupsOf db t u).Nodup := by
  have hrows : t.groups.rows.Nodup := t.groups.nodup_rows_keys.of_map _
  exact (List.perm_insertionSort _ _).nodup_iff.mpr (hrows.filter _)

/-- No group has the path of a group with a member of the list. -/
def PathsApart (t : Tables) (userIds : List Uuid) : Prop :=
  ∀ g ∈ t.groups.rows, ∀ h ∈ t.groups.rows, groupPath g = groupPath h →
    (∃ u ∈ userIds, t.isMember g.id u = true) → g = h

/-- The lists of the users tell the groups apart. -/
structure ToldApart (t : Tables) (userIds : List Uuid) (list : Uuid → List String) : Prop where
  nodup : ∀ u ∈ userIds, (list u).Nodup
  different : ∀ u ∈ userIds, ∀ v ∈ userIds,
    (∃ g ∈ t.groups.rows, t.isMember g.id u ≠ t.isMember g.id v) → list u ≠ list v
  foreign : ∀ u ∈ userIds, ∀ g ∈ t.groups.rows, t.isMember g.id u = false → groupPath g ∉ list u

theorem mem_desiredGroups {path : String} :
    path ∈ desiredGroups db t u ↔
      ∃ g ∈ t.groups.rows, t.isMember g.id u = true ∧ groupPath g = path := by
  simp only [desiredGroups, List.mem_map, mem_groupsOf, and_assoc]

theorem toldApart_of_pathsApart {userIds : List Uuid} (hpaths : PathsApart t userIds) :
    ToldApart t userIds (desiredGroups db t) := by
  have hforeign : ∀ u ∈ userIds, ∀ g ∈ t.groups.rows, t.isMember g.id u = false →
      groupPath g ∉ desiredGroups db t u := by
    intro u hu g hg hno hmem
    obtain ⟨h, hh, hmember, hpath⟩ := mem_desiredGroups.mp hmem
    have heq := hpaths h hh g hg hpath ⟨u, hu, hmember⟩
    rw [heq, hno] at hmember
    cases hmember
  refine ⟨?_, ?_, hforeign⟩
  · intro u hu
    refine (List.nodup_map_iff_inj_on (nodup_groupsOf db t u)).mpr ?_
    intro g hg h hh hpath
    obtain ⟨hg, hmember⟩ := mem_groupsOf.mp hg
    exact hpaths g hg h (mem_groupsOf.mp hh).1 hpath ⟨u, hu, hmember⟩
  · rintro u hu v hv ⟨g, hg, hne⟩ heq
    cases hgu : t.isMember g.id u with
    | true =>
      rw [hgu, ne_comm, Ne, Bool.not_eq_true] at hne
      have hmem : groupPath g ∈ desiredGroups db t u := mem_desiredGroups.mpr ⟨g, hg, hgu, rfl⟩
      exact hforeign v hv g hg hne (heq ▸ hmem)
    | false =>
      rw [hgu, ne_comm, Ne, Bool.not_eq_false] at hne
      have hmem : groupPath g ∈ desiredGroups db t v := mem_desiredGroups.mpr ⟨g, hg, hne, rfl⟩
      exact hforeign u hu g hg hgu (heq ▸ hmem)

theorem pathsApart_of_toldApart {userIds : List Uuid}
    (htold : ToldApart t userIds (desiredGroups db t)) : PathsApart t userIds := by
  rintro g hg h hh hpath ⟨u, hu, hmember⟩
  by_cases hother : t.isMember h.id u = true
  · have hinj := (List.nodup_map_iff_inj_on (nodup_groupsOf db t u)).mp (htold.nodup u hu)
    exact hinj g (mem_groupsOf.mpr ⟨hg, hmember⟩) h (mem_groupsOf.mpr ⟨hh, hother⟩) hpath
  · have hmem : groupPath g ∈ desiredGroups db t u := mem_desiredGroups.mpr ⟨g, hg, hmember, rfl⟩
    rw [hpath] at hmem
    exact absurd hmem (htold.foreign u hu h hh (by simpa using hother))

/-- The column `groups` of a user. -/
def groupsColumn (t : Tables) (u : Uuid) : List String := ((t.users.get? u).map UserRow.groups).getD []

theorem desiredGroups_of_missing (ht : t.Constraints db) (hu : t.users.get? u = none) :
    desiredGroups db t u = [] := by
  have hno : ∀ g ∈ groupsOf db t u, False := by
    intro g hg
    have hmember : (⟨g.id, u⟩ : Membership) ∈ t.members := by
      simpa [Tables.isMember] using (mem_groupsOf.mp hg).2
    have hexists := ht.userExists _ hmember
    rw [hu] at hexists
    cases hexists
  rw [desiredGroups, List.eq_nil_iff_forall_not_mem.mpr hno, List.map_nil]

theorem groupsColumn_of_sync (ht : t.Constraints db) {userIds : List Uuid} (hu : u ∈ userIds) :
    groupsColumn (syncUserGroups db t userIds).1 u = desiredGroups db t u := by
  cases hrow : (syncUserGroups db t userIds).1.users.get? u with
  | some row =>
    rw [groupsColumn, hrow]
    exact groups_of_sync hu hrow
  | none =>
    rw [groupsColumn, hrow]
    simp only [syncUserGroups, Table.get?_update, Option.map_eq_none_iff] at hrow
    exact (desiredGroups_of_missing ht hrow).symm

theorem ToldApart.congr {userIds : List Uuid} {list list' : Uuid → List String}
    (heq : ∀ u ∈ userIds, list u = list' u) (h : ToldApart t userIds list) :
    ToldApart t userIds list' := by
  refine ⟨fun u hu => heq u hu ▸ h.nodup u hu, ?_, ?_⟩
  · intro u hu v hv hne
    rw [← heq u hu, ← heq v hv]
    exact h.different u hu v hv hne
  · intro u hu g hg hno
    rw [← heq u hu]
    exact h.foreign u hu g hg hno

/-- **Group claims.** In a realm that the schema admits, the lists that the synchronisation leaves
in the columns of users have no duplicates, differ for users with different memberships, and have
no path of a group that the user is not in, if and only if no group with one of these users as its
member has the path of another group. -/
theorem group_claims (db : Database) (t : Tables) (ht : t.Constraints db) (userIds : List Uuid) :
    ToldApart t userIds (groupsColumn (syncUserGroups db t userIds).1) ↔ PathsApart t userIds := by
  constructor
  · intro h
    exact pathsApart_of_toldApart (h.congr fun u hu => groupsColumn_of_sync ht hu)
  · intro h
    exact (toldApart_of_pathsApart h).congr fun u hu => (groupsColumn_of_sync ht hu).symm

/-! ### Two groups and a user -/

/-- `lower` and the collation `C`, for ASCII. -/
def asciiDatabase : Database := ⟨lowerKey, fun _ _ => rfl, fun s t => s.toList ≤ t.toList⟩

def someUser : UserRow :=
  { id := ⟨"0c6a9d0e-51f4-4d6c-9f0e-0d5b5a1f7a01", rfl⟩
    username := "ada"
    email := "ada@example.test"
    emailVerified := true
    displayName := "Ada"
    givenName := ""
    familyName := ""
    enabled := true
    securityVersion := 0
    passwordHash := "hash"
    roles := []
    groups := []
    scim := .empty
    externalId := none
    version := 1 }

def firstGroup (displayName : String) : GroupRow :=
  ⟨⟨"1c6a9d0e-51f4-4d6c-9f0e-0d5b5a1f7a02", rfl⟩, none, displayName, 1⟩

def secondGroup (displayName : String) : GroupRow :=
  ⟨⟨"2c6a9d0e-51f4-4d6c-9f0e-0d5b5a1f7a03", rfl⟩, none, displayName, 1⟩

/-- Two groups of the given names; the user is in the first one. -/
def twoGroups (first second : String) : Tables where
  users := Table.empty.insert someUser
  groups := (Table.empty.insert (firstGroup first)).insert (secondGroup second)
  members := [⟨(firstGroup first).id, someUser.id⟩]

theorem rows_twoGroups (first second : String) :
    (twoGroups first second).groups.rows = [firstGroup first, secondGroup second] := rfl

theorem constraints_twoGroups {first second : String}
    (hfirst : 1 ≤ (btrim first).toList.length ∧ (btrim first).toList.length ≤ 256)
    (hsecond : 1 ≤ (btrim second).toList.length ∧ (btrim second).toList.length ≤ 256)
    (hne : lowerKey first ≠ lowerKey second) :
    (twoGroups first second).Constraints asciiDatabase := by
  refine ⟨?_, ?_, ?_, ?_, ?_, List.nodup_singleton _⟩
  · rw [rows_twoGroups]
    intro g hg
    rcases List.mem_pair.mp hg with rfl | rfl
    · exact hfirst
    · exact hsecond
  · rw [rows_twoGroups]
    intro g hg h hh heq
    rcases List.mem_pair.mp hg with rfl | rfl <;> rcases List.mem_pair.mp hh with rfl | rfl
    · rfl
    · exact absurd heq hne
    · exact absurd heq.symm hne
    · rfl
  · rw [rows_twoGroups]
    intro g hg h hh hsome
    rcases List.mem_pair.mp hg with rfl | rfl <;> cases hsome
  · intro m hm
    rw [List.mem_singleton.mp hm]
    rfl
  · intro m hm
    rw [List.mem_singleton.mp hm]
    rfl

theorem group_claims_twoGroups :
    ToldApart (twoGroups "Red" "Blue") [someUser.id]
      (groupsColumn (syncUserGroups asciiDatabase (twoGroups "Red" "Blue") [someUser.id]).1) := by
  have ht : (twoGroups "Red" "Blue").Constraints asciiDatabase :=
    constraints_twoGroups (by decide) (by decide) (by decide)
  refine (group_claims asciiDatabase _ ht _).mpr ?_
  intro g hg h hh hpath hmember
  rw [rows_twoGroups] at hg hh
  rcases List.mem_pair.mp hg with rfl | rfl <;> rcases List.mem_pair.mp hh with rfl | rfl
  · rfl
  · exact absurd hpath (by decide)
  · exact absurd hpath (by decide)
  · rfl

/-- A member of `a/b` gets the path of `a-b`. -/
theorem group_claims_confused :
    (twoGroups "a/b" "a-b").Constraints asciiDatabase ∧
      (twoGroups "a/b" "a-b").isMember (secondGroup "a-b").id someUser.id = false ∧
      groupPath (secondGroup "a-b") ∈
        groupsColumn (syncUserGroups asciiDatabase (twoGroups "a/b" "a-b") [someUser.id]).1
          someUser.id :=
  ⟨constraints_twoGroups (by decide) (by decide) (by decide), rfl, by decide⟩

end AuthMe.Scim

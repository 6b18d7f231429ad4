import AuthMe.Scim.Accounts
import AuthMe.Scim.Routes
import AuthMe.Transition.Versioned

/-!
# Versions of Users and Groups

SCIM gives every User and every Group a version, which clients compare instead of the resource. The
versions are raised by a trigger on `users`, by `replaceGroup` and by the deletion of a User. Two
paths pass them by. `deleteAccount` takes the memberships of the user with it and leaves the versions
of the Groups. And the synchronisation raises the version of a user only with the column `groups`,
which an administrator may have set before to what it becomes. `version_law` is about all other runs.
-/

namespace AuthMe.Scim

open Transition

/-! ## Runs of operations -/

/-- The store with the identifiers that have been drawn. -/
structure Realm extends Store where
  issued : List Uuid

/-- The operations that are committed. -/
inductive Event
  | createUser (id : Uuid) (attributes : User) (passwordHash : String)
  | replaceUser (id : String) (attributes : User) (expectedVersion : Nat)
      (passwordHash : Option String)
  | deleteUser (id : String) (expectedVersion : Nat)
  | group (op : GroupOperation)
  | updateUser (id : Uuid) (patch : DataLayer.Patch)
  | mutateAccountSecurity (id : Uuid) (patches : List DataLayer.Patch) (applied : Bool)
  | deleteAccount (id : Uuid)

/-- The identifier that is drawn for a new resource. -/
def Event.drawn : Event → List Uuid
  | createUser id _ _ | group (.create id _) => [id]
  | _ => []

/-- The store after a transaction that is committed. -/
def committed {α : Type} (q : Query α) (s : Store) : Option Store :=
  match q.exec s with
  | (.ok _, s') => some s'
  | (.error _, _) => none

structure Config where
  db : Database
  lower : LowerCase
  refuses : UserConstraints
  realm : String

variable (c : Config)

def Event.perform : Event → Store → Option Store
  | createUser id attributes passwordHash =>
    committed (Scim.createUser c.lower c.refuses id attributes passwordHash)
  | replaceUser id attributes expectedVersion passwordHash =>
    committed (Scim.replaceUser c.lower c.refuses c.realm id attributes expectedVersion passwordHash)
  | deleteUser id expectedVersion => committed (Scim.deleteUser c.realm id expectedVersion)
  | group op => committed (op.perform c.db c.realm)
  | updateUser id patch => committed (Scim.updateUser c.lower c.refuses id patch)
  | mutateAccountSecurity id patches applied =>
    committed (Scim.mutateAccountSecurity c.lower c.refuses c.realm id patches applied)
  | deleteAccount id => committed (Scim.deleteAccount c.realm id)

/-- No identifier is drawn twice. -/
def step (s : Realm) (e : Event) : Option (Realm × Unit) :=
  if e.drawn.any s.issued.contains then none
  else (e.perform c s.toStore).map fun t => (⟨t, e.drawn ++ s.issued⟩, ())

/-! ## What is shown -/

/-- The Groups that the User is shown to be in. -/
def shownGroups (t : Tables) (u : Uuid) : Set Uuid :=
  { g | (t.groups.get? g).isSome ∧ t.isMember g u = true }

def userView (t : Tables) (u : Uuid) : Option (Nat × User × Set Uuid) :=
  (t.users.get? u).map fun row => (row.version, rowAttributes row, shownGroups t u)

def groupView (t : Tables) (g : Uuid) : Option (Nat × String × Option String × Set Uuid) :=
  (t.groups.get? g).map fun row =>
    (row.version, row.displayName, row.externalId, { u | u ∈ membersOf t g })

/-! ## The condition -/

/-- The tables with the new row and members of a group. -/
def writtenGroup (row : GroupRow) (members : List String) (t : Tables) : Tables :=
  { t with
    groups := t.groups.insert row
    members := (t.members.filter fun m => m.groupId ≠ row.id) ++
      ((members.mapM Uuid.parse).getD []).map fun u => ⟨row.id, u⟩ }

/-- The groups and memberships that the operation leads to. -/
def GroupOperation.after (t : Tables) : GroupOperation → Tables
  | create id attributes =>
    writtenGroup ⟨id, attributes.externalId.text?, attributes.displayName, 1⟩ attributes.members t
  | replace id attributes expectedVersion =>
    match Uuid.parse id with
    | none => t
    | some id => writtenGroup
        ⟨id, attributes.externalId.text?, attributes.displayName, expectedVersion + 1⟩
        attributes.members t
  | delete id _ =>
    match Uuid.parse id with
    | none => t
    | some id => eraseGroup id t

/-- The user joins or leaves a group. -/
def Moved (t t' : Tables) (u : Uuid) : Prop := ∃ g, t.isMember g u ≠ t'.isMember g u

/-- The account that is deleted is in no Group, and no user who joins or leaves a Group has the list
in the column already that belongs to the Groups that the user is in afterwards. -/
def Careful (s : Realm) : Event → Prop
  | .deleteAccount id => ∀ g, s.tables.isMember g id = false
  | .group op => ∀ u row, s.tables.users.get? u = some row →
      Moved s.tables (op.after s.tables) u → row.groups ≠ desiredGroups c.db (op.after s.tables) u
  | _ => True

/-- The foreign keys of `scim_group_members`. -/
def Linked (t : Tables) : Prop :=
  ∀ g u, t.isMember g u = true → (t.groups.get? g).isSome ∧ (t.users.get? u).isSome

/-- The schema holds, and what is there has been drawn. -/
structure Valid (s : Realm) : Prop where
  linked : Linked s.tables
  user : ∀ u, (s.tables.users.get? u).isSome → u ∈ s.issued
  group : ∀ g, (s.tables.groups.get? g).isSome → g ∈ s.issued

/-! ## Users -/

section

variable {t t' : Tables} {u : Uuid}

theorem userView_congr (husers : t'.users.get? u = t.users.get? u)
    (hshown : shownGroups t' u = shownGroups t u) : userView t' u = userView t u := by
  rw [userView, userView, husers, hshown]

theorem groupView_congr {g : Uuid} (hgroups : t'.groups.get? g = t.groups.get? g)
    (hmember : ∀ u, t'.isMember g u = t.isMember g u) : groupView t' g = groupView t g := by
  have hset : { u | u ∈ membersOf t' g } = { u | u ∈ membersOf t g } := by
    ext u
    rw [Set.mem_ofPred_eq, Set.mem_ofPred_eq, mem_membersOf, mem_membersOf, hmember]
  rw [groupView, groupView, hgroups, hset]

theorem isMember_eraseUser (id g u : Uuid) :
    (eraseUser id t).isMember g u = true ↔ t.isMember g u = true ∧ u ≠ id := by
  simp [Tables.isMember, eraseUser]

theorem isMember_eraseGroup (id g u : Uuid) :
    (eraseGroup id t).isMember g u = true ↔ t.isMember g u = true ∧ g ≠ id := by
  simp [Tables.isMember, eraseGroup]

theorem isMember_writtenGroup (row : GroupRow) (members : List String) (g u : Uuid) :
    (writtenGroup row members t).isMember g u = true ↔
      if g = row.id then u ∈ (members.mapM Uuid.parse).getD [] else t.isMember g u = true := by
  simp only [Tables.isMember, writtenGroup, List.contains_iff_mem, List.mem_append, List.mem_filter,
    List.mem_map, decide_eq_true_eq, Membership.mk.injEq]
  split
  · rename_i hg
    constructor
    · rintro (⟨_, hne⟩ | ⟨v, hv, _, rfl⟩)
      · exact absurd hg hne
      · exact hv
    · exact fun hu => .inr ⟨u, hu, hg.symm, rfl⟩
  · rename_i hg
    constructor
    · rintro (⟨hmem, _⟩ | ⟨v, _, heq, _⟩)
      · exact hmem
      · exact absurd heq.symm hg
    · exact fun hmem => .inl ⟨hmem, hg⟩

/-- A row that is changed without a new version shows the same. -/
def Keeps (f : UserRow → UserRow) : Prop :=
  ∀ row, row.version ≤ (f row).version ∧
    (row.version = (f row).version → rowAttributes row = rowAttributes (f row))

theorem Keeps.comp {f g : UserRow → UserRow} (hf : Keeps f) (hg : Keeps g) :
    Keeps fun row => g (f row) := by
  intro row
  obtain ⟨hle, heq⟩ := hf row
  obtain ⟨hle', heq'⟩ := hg (f row)
  refine ⟨Nat.le_trans hle hle', ?_⟩
  intro hversion
  have hmid : row.version = (g (f row)).version := hversion
  rw [heq (by omega), heq' (by omega)]

theorem keeps_updateUser (lower : LowerCase) (patch : DataLayer.Patch) :
    Keeps (Passwords.Write.apply lower (.updateUser patch)) := by
  intro row
  cases hbumps : Passwords.bumpsVersion patch with
  | true =>
    simp only [Passwords.Write.apply, hbumps, if_true]
    exact ⟨by omega, fun hversion => by omega⟩
  | false =>
    -- only the password hash is in the patch
    simp only [Passwords.bumpsVersion, Bool.or_eq_false_iff, Option.isSome_eq_false_iff,
      Option.isNone_iff_eq_none] at hbumps
    obtain ⟨⟨⟨⟨⟨⟨⟨hemail, hverified⟩, hname⟩, hgiven⟩, hfamily⟩, henabled⟩, hroles⟩, hgroups⟩ :=
      hbumps
    simp only [Passwords.Write.apply, Passwords.bumpsVersion, hemail, hverified, hname, hgiven,
      hfamily, henabled, hroles, hgroups]
    exact ⟨Nat.le_refl _, fun _ => rfl⟩

theorem keeps_patched (lower : LowerCase) (patches : List DataLayer.Patch) :
    Keeps (patched lower patches) := by
  have hfold : ∀ (patches : List DataLayer.Patch) (f : UserRow → UserRow), Keeps f →
      Keeps fun row => patches.foldl
        (fun row patch => Passwords.Write.apply lower (.updateUser patch) row) (f row) := by
    intro patches
    induction patches with
    | nil => exact fun f hf => hf
    | cons patch patches ih => exact fun f hf => ih _ (hf.comp (keeps_updateUser lower patch))
  exact hfold patches (fun row => row) fun row => ⟨Nat.le_refl _, fun _ => rfl⟩

theorem keeps_bumpSecurityVersion (lower : LowerCase) :
    Keeps (Passwords.Write.apply lower .bumpSecurityVersion) :=
  fun _ => ⟨Nat.le_refl _, fun _ => rfl⟩

theorem keeps_replaceUser (lower : LowerCase) (core : CoreUser) (passwordHash : String)
    (externalId : Option String) :
    Keeps fun row => Passwords.Write.apply lower (.setExternalId externalId)
      (Passwords.Write.apply lower (.replaceUser core passwordHash) row) := by
  intro row
  have hversion : (Passwords.Write.apply lower (.setExternalId externalId)
      (Passwords.Write.apply lower (.replaceUser core passwordHash) row)).version =
        row.version + 1 := rfl
  rw [hversion]
  exact ⟨by omega, fun heq => by omega⟩

theorem RowChanged.userView_succeeds {id : Uuid} {f : UserRow → UserRow} (h : RowChanged id f t t')
    (hf : Keeps f) (u : Uuid) : Succeeds (userView t u) (userView t' u) := by
  have hshown : shownGroups t' u = shownGroups t u := by
    rw [shownGroups, shownGroups, h.groups]
    simp only [Tables.isMember, h.members]
  by_cases hu : u = id
  · have husers := h.users u
    rw [if_pos hu] at husers
    rw [userView, userView, husers, hshown]
    cases t.users.get? u with
    | none => exact Succeeds.none _
    | some row =>
      obtain ⟨hle, heq⟩ := hf row
      exact Succeeds.some hle fun hversion => by rw [heq hversion]
  · have husers := h.users u
    rw [if_neg hu] at husers
    rw [userView_congr husers hshown]
    exact Succeeds.refl _

theorem RowChanged.groupView_eq {id : Uuid} {f : UserRow → UserRow} (h : RowChanged id f t t')
    (g : Uuid) : groupView t' g = groupView t g :=
  groupView_congr (by rw [h.groups]) fun u => by rw [Tables.isMember, h.members]; rfl

theorem userView_eraseUser (id u : Uuid) : Succeeds (userView t u) (userView (eraseUser id t) u) := by
  by_cases hu : u = id
  · have hnone : userView (eraseUser id t) u = none := by
      rw [userView, eraseUser, Table.get?_erase, if_pos hu]
      rfl
    rw [hnone]
    exact Succeeds.none _
  · have hshown : shownGroups (eraseUser id t) u = shownGroups t u := by
      ext g
      simp only [shownGroups, Set.mem_ofPred_eq, isMember_eraseUser, hu, ne_eq, not_false_iff,
        and_true]
      rfl
    rw [userView_congr ((Table.get?_erase _ _ _).trans (if_neg hu)) hshown]
    exact Succeeds.refl _

theorem userView_versionGroups (id u : Uuid) :
    userView (versionGroups id t) u = userView t u := by
  refine userView_congr rfl ?_
  ext g
  simp only [shownGroups, Set.mem_ofPred_eq, versionGroups, Table.get?_update, Option.isSome_map]
  rfl

/-- The groups of the user have a higher version before the user goes. -/
theorem groupView_deleteUser (id g : Uuid) :
    Succeeds (groupView t g) (groupView (eraseUser id (versionGroups id t)) g) := by
  have hget : (eraseUser id (versionGroups id t)).groups.get? g =
      (t.groups.get? g).map fun row =>
        if t.isMember row.id id then { row with version := row.version + 1 } else row := by
    rw [eraseUser, versionGroups, Table.get?_update]
  cases hrow : t.groups.get? g with
  | none =>
    have hnone : groupView (eraseUser id (versionGroups id t)) g = none := by
      rw [groupView, hget, hrow]
      rfl
    rw [hnone]
    exact Succeeds.none _
  | some row =>
    have hid : row.id = g := Table.keyOf_of_get? hrow
    cases hmember : t.isMember g id with
    | true =>
      rw [groupView, groupView, hget, hrow, Option.map_some, Option.map_some, hid, hmember,
        if_pos rfl, Option.map_some]
      exact Succeeds.some (Nat.le_succ _) fun heq => absurd heq (Nat.succ_ne_self _).symm
    | false =>
      have hsame : groupView (eraseUser id (versionGroups id t)) g = groupView t g := by
        refine groupView_congr ?_ ?_
        · rw [hget, hrow, Option.map_some, hid, hmember]
          rfl
        · intro u
          rw [Bool.eq_iff_iff, isMember_eraseUser]
          constructor
          · exact fun h => h.1
          · intro h
            refine ⟨h, ?_⟩
            rintro rfl
            have h' : t.isMember g u = true := h
            rw [hmember] at h'
            cases h'
      rw [hsame]
      exact Succeeds.refl _

end

/-! ## Groups -/

theorem desiredGroups_congr (db : Database) {t t' : Tables} {u : Uuid}
    (hgroups : t'.groups = t.groups) (hmember : ∀ g, t'.isMember g u = t.isMember g u) :
    desiredGroups db t' u = desiredGroups db t u := by
  rw [desiredGroups, desiredGroups, groupsOf, groupsOf, hgroups]
  simp only [hmember]

/-- The tables that an operation leads to, before the users are synchronised. -/
structure Reached (db : Database) (realm : String) (op : GroupOperation) (affected : List Uuid)
    (s t s' : Store) : Prop where
  users : t.tables.users = s.tables.users
  groups : t.tables.groups = (op.after s.tables).groups
  member : ∀ g u, t.tables.isMember g u = (op.after s.tables).isMember g u
  moved : ∀ u, Moved s.tables (op.after s.tables) u → u ∈ affected
  synced : Synced db realm affected t s'

section

variable {db : Database} {realm : String} {s s' : Store}

theorem Stored.reached {row : GroupRow} {members : List String} {op : GroupOperation}
    (hafter : op.after s.tables = writtenGroup row members s.tables)
    (h : Stored db realm row members s s') :
    (∀ u ∈ (members.mapM Uuid.parse).getD [], (s.tables.users.get? u).isSome) ∧
      ∃ affected t, Reached db realm op affected s t s' := by
  obtain ⟨ids, affected, t, hids, haffected, _, hreplaced, hsynced⟩ := h
  refine ⟨?_, affected, t, hreplaced.users, ?_, ?_, ?_, hsynced⟩
  · rw [hids]
    exact hreplaced.userExists
  · rw [hreplaced.groups, hafter]
    rfl
  · intro g u
    rw [hafter, Bool.eq_iff_iff, hreplaced.member, isMember_writtenGroup, hids]
    rfl
  · rintro u ⟨g, hne⟩
    rw [hafter, Ne, Bool.eq_iff_iff, isMember_writtenGroup, hids] at hne
    rw [haffected]
    by_cases hg : g = row.id
    · rw [if_pos hg, hg] at hne
      by_cases hu : u ∈ ids
      · exact .inr hu
      · refine .inl ?_
        by_contra hmember
        exact hne ⟨fun h => absurd h hmember, fun h => absurd h hu⟩
    · rw [if_neg hg] at hne
      exact absurd Iff.rfl hne

theorem mem_writtenGroups {row : GroupRow} {members : List String} (g : Uuid) :
    (writtenGroup row members s.tables).groups.get? g =
      if g = row.id then some row else s.tables.groups.get? g :=
  Table.get?_insert _ _ _

/-- The group has a higher version, or it is new. -/
theorem groupView_writtenGroup {row : GroupRow} {members : List String} (g : Uuid)
    (hold : g = row.id → ∃ old, s.tables.groups.get? g = some old ∧ old.version < row.version) :
    Succeeds (groupView s.tables g) (groupView (writtenGroup row members s.tables) g) := by
  by_cases hg : g = row.id
  · obtain ⟨old, hget, hlt⟩ := hold hg
    rw [groupView, groupView, hget, mem_writtenGroups, if_pos hg]
    exact Succeeds.some (Nat.le_of_lt hlt) fun heq => absurd heq (Nat.ne_of_lt hlt)
  · have hsame : groupView (writtenGroup row members s.tables) g = groupView s.tables g := by
      refine groupView_congr ?_ ?_
      · rw [mem_writtenGroups, if_neg hg]
      · intro u
        rw [Bool.eq_iff_iff, isMember_writtenGroup, if_neg hg]
    rw [hsame]
    exact Succeeds.refl _

theorem groupView_eraseGroup (id g : Uuid) {t : Tables} :
    Succeeds (groupView t g) (groupView (eraseGroup id t) g) := by
  by_cases hg : g = id
  · have hnone : groupView (eraseGroup id t) g = none := by
      rw [groupView, eraseGroup, Table.get?_erase, if_pos hg]
      rfl
    rw [hnone]
    exact Succeeds.none _
  · have hsame : groupView (eraseGroup id t) g = groupView t g := by
      refine groupView_congr ((Table.get?_erase _ _ _).trans (if_neg hg)) ?_
      intro u
      rw [Bool.eq_iff_iff, isMember_eraseGroup]
      exact ⟨fun h => h.1, fun h => ⟨h, hg⟩⟩
    rw [hsame]
    exact Succeeds.refl _

/-- What an operation on a group leads to, and what it shows of the groups. -/
theorem group_ok {op : GroupOperation} {answer : Option GroupRecord}
    (h : (op.perform db realm).exec s = (.ok answer, s')) :
    (∃ affected t, Reached db realm op affected s t s') ∧
      (Linked s.tables → ∀ g u, (op.after s.tables).isMember g u = true →
        ((op.after s.tables).groups.get? g).isSome ∧ (s.tables.users.get? u).isSome) ∧
      ∀ g, (∀ attributes, op ≠ .create g attributes) →
        ((s.tables.groups.get? g).isNone → ((op.after s.tables).groups.get? g).isNone) ∧
        Succeeds (groupView s.tables g) (groupView (op.after s.tables) g) := by
  have hwritten : ∀ (row : GroupRow) (members : List String),
      (∀ u ∈ (members.mapM Uuid.parse).getD [], (s.tables.users.get? u).isSome) →
      Linked s.tables → ∀ g u, (writtenGroup row members s.tables).isMember g u = true →
        ((writtenGroup row members s.tables).groups.get? g).isSome ∧
          (s.tables.users.get? u).isSome := by
    intro row members hexist hlinked g u hmember
    rw [isMember_writtenGroup] at hmember
    rw [mem_writtenGroups]
    by_cases hg : g = row.id
    · rw [if_pos hg] at hmember ⊢
      exact ⟨rfl, hexist u hmember⟩
    · rw [if_neg hg] at hmember ⊢
      exact hlinked g u hmember
  cases op with
  | create id attributes =>
    obtain ⟨hnew, hstored⟩ := createGroup_ok h
    have hafter : (GroupOperation.create id attributes).after s.tables =
        writtenGroup ⟨id, attributes.externalId.text?, attributes.displayName, 1⟩
          attributes.members s.tables := rfl
    obtain ⟨hexist, hreached⟩ := Stored.reached hafter hstored
    refine ⟨hreached, hwritten _ _ hexist, ?_⟩
    intro g hg
    have hne : g ≠ id := by
      rintro rfl
      exact hg attributes rfl
    refine ⟨?_, groupView_writtenGroup g fun heq => absurd heq hne⟩
    intro hnone
    rw [GroupOperation.after, mem_writtenGroups, if_neg hne]
    exact hnone
  | replace id attributes expectedVersion =>
    obtain ⟨row, hid, hrow, hversion, hstored⟩ := replaceGroup_ok h
    have hafter : (GroupOperation.replace id attributes expectedVersion).after s.tables =
        writtenGroup ⟨row.id, attributes.externalId.text?, attributes.displayName, row.version + 1⟩
          attributes.members s.tables := by
      rw [GroupOperation.after, hid, hversion]
    obtain ⟨hexist, hreached⟩ := Stored.reached hafter hstored
    rw [hafter]
    refine ⟨hreached, hwritten _ _ hexist, ?_⟩
    intro g _
    refine ⟨?_, groupView_writtenGroup g ?_⟩
    · intro hnone
      rw [mem_writtenGroups, if_neg]
      · exact hnone
      · rintro rfl
        rw [hrow] at hnone
        cases hnone
    · rintro rfl
      exact ⟨row, hrow, Nat.lt_succ_self _⟩
  | delete id expectedVersion =>
    obtain ⟨row, hid, hrow, _, hsynced⟩ := deleteGroup_ok h
    have hafter : (GroupOperation.delete id expectedVersion).after s.tables =
        eraseGroup row.id s.tables := by
      rw [GroupOperation.after, hid]
    rw [hafter]
    refine ⟨⟨_, { s with tables := eraseGroup row.id s.tables }, rfl, by rw [hafter],
      fun _ _ => by rw [hafter], ?_, hsynced⟩, ?_, ?_⟩
    · rintro u ⟨g, hne⟩
      rw [hafter, Ne, Bool.eq_iff_iff, isMember_eraseGroup] at hne
      rw [mem_membersOf]
      by_cases hg : g = row.id
      · rw [← hg]
        by_contra hmember
        exact hne ⟨fun h => absurd h hmember, fun h => absurd hg h.2⟩
      · exact absurd ⟨fun h => ⟨h, hg⟩, fun h => h.1⟩ hne
    · intro hlinked g u hmember
      rw [isMember_eraseGroup] at hmember
      obtain ⟨hgroup, huser⟩ := hlinked g u hmember.1
      refine ⟨?_, huser⟩
      rw [eraseGroup, Table.get?_erase, if_neg hmember.2]
      exact hgroup
    · intro g _
      refine ⟨?_, groupView_eraseGroup row.id g⟩
      intro hnone
      rw [eraseGroup, Table.get?_erase]
      split
      · rfl
      · exact hnone

end

/-! ## Steps -/

theorem committed_eq_some {α : Type} {q : Query α} {s s' : Store} (h : committed q s = some s') :
    ∃ a, q.exec s = (.ok a, s') := by
  rw [committed] at h
  split at h
  · rename_i a t hexec
    cases h
    exact ⟨a, hexec⟩
  · cases h

theorem RowChanged.linked {id : Uuid} {f : UserRow → UserRow} {t t' : Tables}
    (h : RowChanged id f t t') (hlinked : Linked t) : Linked t' := by
  intro g u hmember
  rw [Tables.isMember, h.members] at hmember
  obtain ⟨hgroup, huser⟩ := hlinked g u hmember
  rw [h.groups, h.users]
  refine ⟨hgroup, ?_⟩
  split
  · rw [Option.isSome_map]
    exact huser
  · exact huser

theorem linked_eraseUser (id : Uuid) {t : Tables} (h : Linked t) : Linked (eraseUser id t) := by
  intro g u hmember
  rw [isMember_eraseUser] at hmember
  obtain ⟨hgroup, huser⟩ := h g u hmember.1
  refine ⟨hgroup, ?_⟩
  rw [eraseUser, Table.get?_erase, if_neg hmember.2]
  exact huser

theorem linked_versionGroups (id : Uuid) {t : Tables} (h : Linked t) :
    Linked (versionGroups id t) := by
  intro g u hmember
  obtain ⟨hgroup, huser⟩ := h g u hmember
  refine ⟨?_, huser⟩
  rw [versionGroups, Table.get?_update, Option.isSome_map]
  exact hgroup

/-- What an event leaves of the schema, and what it shows of the resources that are not new. -/
structure Steps (e : Event) (t t' : Tables) : Prop where
  linked : Linked t'
  user : ∀ u, u ∉ e.drawn → Succeeds (userView t u) (userView t' u)
  group : ∀ g, g ∉ e.drawn → Succeeds (groupView t g) (groupView t' g)

theorem RowChanged.steps {e : Event} {id : Uuid} {f : UserRow → UserRow} {t t' : Tables}
    (h : RowChanged id f t t') (hf : Keeps f) (hlinked : Linked t) : Steps e t t' :=
  ⟨h.linked hlinked, fun u _ => h.userView_succeeds hf u,
    fun g _ => h.groupView_eq g ▸ Succeeds.refl _⟩

theorem Steps.refl {e : Event} {t : Tables} (hlinked : Linked t) : Steps e t t :=
  ⟨hlinked, fun _ _ => .refl _, fun _ _ => .refl _⟩

theorem shownGroups_of_linked {t : Tables} (h : Linked t) (u : Uuid) :
    shownGroups t u = { g | t.isMember g u = true } := by
  ext g
  rw [shownGroups, Set.mem_ofPred_eq, Set.mem_ofPred_eq]
  exact ⟨fun hg => hg.2, fun hg => ⟨(h g u hg).1, hg⟩⟩

/-- An operation on a group: who joins or leaves gets another list, and with it a new version. -/
theorem group_steps {s s' : Store} {op : GroupOperation} {answer : Option GroupRecord}
    (hlinked : Linked s.tables)
    (hcareful : ∀ u row, s.tables.users.get? u = some row →
      Moved s.tables (op.after s.tables) u → row.groups ≠ desiredGroups c.db (op.after s.tables) u)
    (h : (op.perform c.db c.realm).exec s = (.ok answer, s')) :
    Steps (.group op) s.tables s'.tables := by
  obtain ⟨⟨affected, t, hreached⟩, hexist, hgroups⟩ := group_ok h
  have hsynced := hreached.synced
  have hmember : ∀ g u, s'.tables.isMember g u = (op.after s.tables).isMember g u := by
    intro g u
    rw [← hreached.member, Tables.isMember, Tables.isMember, hsynced.members]
  have hgroup : s'.tables.groups = (op.after s.tables).groups :=
    hsynced.groups.trans hreached.groups
  have husers : ∀ u, (s'.tables.users.get? u).isSome = (s.tables.users.get? u).isSome := by
    intro u
    rw [← hreached.users]
    by_cases hout : Outdated c.db t.tables affected u
    · obtain ⟨_, row, hrow, _⟩ := id hout
      rw [hsynced.outdated u row hrow hout, hrow]
      rfl
    · rw [hsynced.current u hout]
  have hlinked' : Linked s'.tables := by
    intro g u hmem
    rw [hmember] at hmem
    rw [hgroup, husers]
    exact hexist hlinked g u hmem
  refine ⟨hlinked', ?_, ?_⟩
  · intro u _
    rw [userView, userView]
    cases hrow : s.tables.users.get? u with
    | none =>
      have hnone := husers u
      rw [hrow, Option.isSome_none, Option.isSome_eq_false_iff, Option.isNone_iff_eq_none] at hnone
      rw [hnone]
      exact Succeeds.refl _
    | some row =>
      have hrow' : t.tables.users.get? u = some row := hreached.users ▸ hrow
      by_cases hout : Outdated c.db t.tables affected u
      · rw [hsynced.outdated u row hrow' hout]
        exact Succeeds.some (Nat.le_succ _) fun heq => absurd heq (Nat.succ_ne_self _).symm
      · have hstays : ∀ g, s.tables.isMember g u = (op.after s.tables).isMember g u := by
          intro g
          by_contra hne
          have hmoved : Moved s.tables (op.after s.tables) u := ⟨g, hne⟩
          refine hout ⟨hreached.moved u hmoved, row, hrow', ?_⟩
          rw [desiredGroups_congr c.db hreached.groups fun g => hreached.member g u]
          exact hcareful u row hrow hmoved
        have hshown : shownGroups s'.tables u = shownGroups s.tables u := by
          rw [shownGroups_of_linked hlinked', shownGroups_of_linked hlinked]
          simp only [hmember, hstays]
        rw [hsynced.current u hout, hrow', hshown]
        exact Succeeds.refl _
  · intro g hg
    have hsame : groupView s'.tables g = groupView (op.after s.tables) g :=
      groupView_congr (by rw [hgroup]) fun u => hmember g u
    rw [hsame]
    refine (hgroups g ?_).2
    rintro attributes rfl
    exact hg List.mem_cons_self

theorem perform_steps {s : Realm} {e : Event} {s' : Store} (hlinked : Linked s.tables)
    (hcareful : Careful c s e) (h : e.perform c s.toStore = some s') :
    Steps e s.tables s'.tables := by
  cases e with
  | createUser id attributes passwordHash =>
    obtain ⟨answer, h⟩ := committed_eq_some h
    obtain ⟨hnew, hgroups, hmembers, hothers⟩ := createUser_ok h
    have hmember : ∀ g u, s'.tables.isMember g u = s.tables.isMember g u := by
      intro g u
      rw [Tables.isMember, hmembers]
      rfl
    refine ⟨?_, ?_, ?_⟩
    · intro g u hmem
      rw [hmember] at hmem
      obtain ⟨hgroup, huser⟩ := hlinked g u hmem
      have hu : u ≠ id := by
        rintro rfl
        rw [hnew] at huser
        cases huser
      rw [hgroups, hothers u hu]
      exact ⟨hgroup, huser⟩
    · intro u hu
      have hne : u ≠ id := fun heq => hu (List.mem_singleton.mpr heq)
      have hshown : shownGroups s'.tables u = shownGroups s.tables u := by
        rw [shownGroups, shownGroups, hgroups]
        simp only [hmember]
      rw [userView_congr (hothers u hne) hshown]
      exact Succeeds.refl _
    · intro g _
      rw [groupView_congr (by rw [hgroups]) fun u => hmember g u]
      exact Succeeds.refl _
  | replaceUser id attributes expectedVersion passwordHash =>
    obtain ⟨answer, h⟩ := committed_eq_some h
    obtain ⟨row, _, _, _, hchanged⟩ := replaceUser_ok h
    exact hchanged.steps (keeps_replaceUser c.lower _ _ _) hlinked
  | deleteUser id expectedVersion =>
    obtain ⟨answer, h⟩ := committed_eq_some h
    obtain ⟨row, _, _, _, htables⟩ := deleteUser_ok h
    rw [htables]
    refine ⟨linked_eraseUser _ (linked_versionGroups _ hlinked), ?_, ?_⟩
    · intro u _
      rw [← userView_versionGroups row.id u]
      exact userView_eraseUser row.id u
    · exact fun g _ => groupView_deleteUser row.id g
  | group op =>
    obtain ⟨answer, h⟩ := committed_eq_some h
    exact group_steps c hlinked hcareful h
  | updateUser id patch =>
    obtain ⟨answer, h⟩ := committed_eq_some h
    exact (updateRow_ok (Transaction.atomically_ok.mp h)).2.steps (keeps_updateUser c.lower patch)
      hlinked
  | mutateAccountSecurity id patches applied =>
    obtain ⟨answer, h⟩ := committed_eq_some h
    have hpatched := keeps_patched c.lower patches
    rcases mutateAccountSecurity_ok h with hsame | hchanged | hchanged
    · rw [hsame]
      exact Steps.refl hlinked
    · exact hchanged.steps hpatched hlinked
    · exact hchanged.steps (hpatched.comp (keeps_bumpSecurityVersion c.lower)) hlinked
  | deleteAccount id =>
    obtain ⟨answer, h⟩ := committed_eq_some h
    rcases deleteAccount_ok h with hsame | htables
    · rw [hsame]
      exact Steps.refl hlinked
    · rw [htables]
      refine ⟨linked_eraseUser id hlinked, fun u _ => userView_eraseUser id u, ?_⟩
      intro g _
      have hsame : groupView (eraseUser id s.tables) g = groupView s.tables g := by
        refine groupView_congr rfl ?_
        intro u
        rw [Bool.eq_iff_iff, isMember_eraseUser]
        refine ⟨fun hu => hu.1, fun hu => ⟨hu, ?_⟩⟩
        rintro rfl
        rw [hcareful g] at hu
        cases hu
      rw [hsame]
      exact Succeeds.refl _

/-- **Step lemma.** -/
theorem step_steps {s s' : Realm} {e : Event} {o : Unit} (hs : Valid s) (hcareful : Careful c s e)
    (h : step c s e = some (s', o)) :
    Valid s' ∧ (∀ u ∈ s.issued, Succeeds (userView s.tables u) (userView s'.tables u)) ∧
      (∀ g ∈ s.issued, Succeeds (groupView s.tables g) (groupView s'.tables g)) ∧
      ∀ id ∈ s.issued, id ∈ s'.issued := by
  rw [step] at h
  split at h
  · cases h
  · rename_i hfresh
    obtain ⟨t, hperform, heq⟩ := Option.map_eq_some_iff.mp h
    cases heq
    have hsteps := perform_steps c hs.linked hcareful hperform
    have hnew : ∀ id ∈ s.issued, id ∉ e.drawn := by
      intro id hid hdrawn
      exact hfresh (List.any_eq_true.mpr ⟨id, hdrawn, List.contains_iff_mem.mpr hid⟩)
    refine ⟨⟨hsteps.linked, ?_, ?_⟩, fun u hu => hsteps.user u (hnew u hu),
      fun g hg => hsteps.group g (hnew g hg), fun id hid => List.mem_append_right _ hid⟩
    · intro u hu
      by_contra hno
      rw [List.mem_append, not_or] at hno
      have hnone : s.tables.users.get? u = none := by
        rw [← Option.not_isSome_iff_eq_none]
        exact fun hsome => hno.2 (hs.user u hsome)
      have hgone := (hsteps.user u hno.1).gone (by rw [userView, hnone]; rfl)
      rw [userView, Option.map_eq_none_iff] at hgone
      rw [hgone] at hu
      cases hu
    · intro g hg
      by_contra hno
      rw [List.mem_append, not_or] at hno
      have hnone : s.tables.groups.get? g = none := by
        rw [← Option.not_isSome_iff_eq_none]
        exact fun hsome => hno.2 (hs.group g hsome)
      have hgone := (hsteps.group g hno.1).gone (by rw [groupView, hnone]; rfl)
      rw [groupView, Option.map_eq_none_iff] at hgone
      rw [hgone] at hg
      cases hg

/-- A User or a Group that has one version in two states is shown the same in both. -/
theorem shown_of_version {s₀ s s' : Realm} {past tr : List (Event × Unit)} (h₀ : Valid s₀)
    (hpast : Run (step c) (Careful c) s₀ past s) (h : Run (step c) (Careful c) s tr s') :
    (∀ u v shown shown', userView s.tables u = some (v, shown) →
      userView s'.tables u = some (v, shown') → shown = shown') ∧
    ∀ g v shown shown', groupView s.tables g = some (v, shown) →
      groupView s'.tables g = some (v, shown') → shown = shown' := by
  have hs : Valid s :=
    hpast.invariant (fun m e m' o hm hcareful hstep => (step_steps c hm hcareful hstep).1) h₀
  constructor
  · intro u v shown shown' hview hview'
    have huser : u ∈ s.issued := by
      apply hs.user
      obtain ⟨row, hrow, _⟩ := Option.map_eq_some_iff.mp hview
      rw [hrow]
      rfl
    have hrun := Run.succeeds (fun m : Realm => userView m.tables u)
      (fun m => Valid m ∧ u ∈ m.issued) (fun m e m' o hm hcareful hstep => by
        obtain ⟨hvalid, husers, _, hissued⟩ := step_steps c hm.1 hcareful hstep
        exact ⟨⟨hvalid, hissued u hm.2⟩, husers u hm.2⟩) h ⟨hs, huser⟩
    exact (hrun.2.later v shown v shown' hview hview').2 rfl
  · intro g v shown shown' hview hview'
    have hgroup : g ∈ s.issued := by
      apply hs.group
      obtain ⟨row, hrow, _⟩ := Option.map_eq_some_iff.mp hview
      rw [hrow]
      rfl
    have hrun := Run.succeeds (fun m : Realm => groupView m.tables g)
      (fun m => Valid m ∧ g ∈ m.issued) (fun m e m' o hm hcareful hstep => by
        obtain ⟨hvalid, _, hgroups, hissued⟩ := step_steps c hm.1 hcareful hstep
        exact ⟨⟨hvalid, hissued g hm.2⟩, hgroups g hm.2⟩) h ⟨hs, hgroup⟩
    exact (hrun.2.later v shown v shown' hview hview').2 rfl

/-- In every run whose steps are careful, a User or a Group that has one version in two states is
shown the same in both. So a request that names the version of the first state and passes in the
second one, with 304 or by `If-Match`, hides no change. -/
theorem version_law {s₀ s s' : Realm} {past tr : List (Event × Unit)} (h₀ : Valid s₀)
    (hpast : Run (step c) (Careful c) s₀ past s) (h : Run (step c) (Careful c) s tr s') :
    ((∀ u v shown shown', userView s.tables u = some (v, shown) →
      userView s'.tables u = some (v, shown') → shown = shown') ∧
    ∀ g v shown shown', groupView s.tables g = some (v, shown) →
      groupView s'.tables g = some (v, shown') → shown = shown') ∧
    (∀ u v v' shown shown' r, userView s.tables u = some (v, shown) →
      userView s'.tables u = some (v', shown') → Routes.Passes r v v' → shown = shown') ∧
    ∀ g v v' shown shown' r, groupView s.tables g = some (v, shown) →
      groupView s'.tables g = some (v', shown') → Routes.Passes r v v' → shown = shown' := by
  obtain ⟨husers, hgroups⟩ := shown_of_version c h₀ hpast h
  refine ⟨⟨husers, hgroups⟩, ?_, ?_⟩
  · intro u v v' shown shown' r hview hview' hpasses
    cases hpasses.version_eq
    exact husers u v shown shown' hview hview'
  · intro g v v' shown shown' r hview hview' hpasses
    cases hpasses.version_eq
    exact hgroups g v shown shown' hview hview'

/-! ### A member of a group -/

def someConfig : Config where
  db := asciiDatabase
  lower := .onlyAscii
  refuses := fun _ _ => none
  realm := "master"

/-- The user is in the first group. -/
def someRealm (user : UserRow) : Realm where
  tables := { twoGroups "Red" "Blue" with users := Table.empty.insert user }
  records := .empty
  issued := [user.id, (firstGroup "Red").id, (secondGroup "Blue").id]

theorem valid_someRealm (user : UserRow) (h : user.id = someUser.id) : Valid (someRealm user) := by
  have husers : ∀ u, ((someRealm user).tables.users.get? u).isSome = true → u = user.id := by
    intro u hu
    by_contra hne
    have hnone : (someRealm user).tables.users.get? u = none := by
      show (Table.empty.insert user).get? u = none
      rw [Table.get?_insert, if_neg hne]
      rfl
    rw [hnone] at hu
    cases hu
  refine ⟨?_, fun u hu => husers u hu ▸ List.mem_cons_self, ?_⟩
  · intro g u hmember
    have hmem : (⟨g, u⟩ : Membership) ∈ [(⟨(firstGroup "Red").id, someUser.id⟩ : Membership)] :=
      List.contains_iff_mem.mp hmember
    obtain ⟨rfl, rfl⟩ := Membership.mk.inj (List.mem_singleton.mp hmem)
    refine ⟨rfl, ?_⟩
    show ((Table.empty.insert user).get? someUser.id).isSome
    rw [Table.get?_insert, if_pos h.symm]
    rfl
  · intro g hg
    by_contra hno
    simp only [someRealm, List.mem_cons, List.not_mem_nil, or_false, not_or] at hno
    have hnone : (someRealm user).tables.groups.get? g = none := by
      show ((Table.empty.insert (firstGroup "Red")).insert (secondGroup "Blue")).get? g = none
      rw [Table.get?_insert, if_neg hno.2.2, Table.get?_insert, if_neg hno.2.1]
      rfl
    rw [hnone] at hg
    cases hg

/-- The user joins the second Group. -/
def joinBlue : GroupOperation :=
  .replace (secondGroup "Blue").id.text ⟨"Blue", .missing, [someUser.id.text]⟩ 1

/-- After a mutation that only moves the security version the user has the version and is shown as
before. Then the user joins a Group and has a new version, and the other Group is shown as before. -/
theorem version_law_mutateAccountSecurity :
    ∃ s₁ s₂ shown shown',
      step someConfig (someRealm someUser) (.mutateAccountSecurity someUser.id [] true) =
        some (s₁, ()) ∧
      step someConfig s₁ (.group joinBlue) = some (s₂, ()) ∧
      userView (someRealm someUser).tables someUser.id = some (1, shown) ∧
      userView s₁.tables someUser.id = some (1, shown) ∧
      (userView s₂.tables someUser.id).map Prod.fst = some 2 ∧
      groupView (someRealm someUser).tables (firstGroup "Red").id = some (1, shown') ∧
      groupView s₂.tables (firstGroup "Red").id = some (1, shown') := by
  obtain ⟨s₁, s₂, row, x, y, z, w, h₁, h₂, husers, hid, hgroups, hdesired, hx, hy,
      hversion, hz, hw⟩ :
      ∃ s₁ s₂ row x y z w,
        step someConfig (someRealm someUser) (.mutateAccountSecurity someUser.id [] true) =
          some (s₁, ()) ∧
        step someConfig s₁ (.group joinBlue) = some (s₂, ()) ∧
        s₁.tables.users = (Table.empty.insert someUser).insert row ∧ row.id = someUser.id ∧
        row.groups = [] ∧
        desiredGroups asciiDatabase (joinBlue.after s₁.tables) someUser.id = ["/Blue", "/Red"] ∧
        userView (someRealm someUser).tables someUser.id = some (1, x) ∧
        userView s₁.tables someUser.id = some (1, y) ∧
        (userView s₂.tables someUser.id).map Prod.fst = some 2 ∧
        groupView (someRealm someUser).tables (firstGroup "Red").id = some (1, z) ∧
        groupView s₂.tables (firstGroup "Red").id = some (1, w) :=
    ⟨_, _, _, _, _, _, _, rfl, rfl, rfl, rfl, rfl, rfl, rfl, rfl, rfl, rfl, rfl⟩
  have hcareful : Careful someConfig s₁ (.group joinBlue) := by
    intro u row' hrow' _
    rw [husers, Table.get?_insert, hid] at hrow'
    split at hrow'
    · rename_i hu
      cases hrow'
      rw [hu, hgroups]
      exact fun heq => absurd (heq.trans hdesired) (by simp)
    · rename_i hu
      rw [Table.get?_insert, if_neg hu] at hrow'
      cases hrow'
  have hvalid := valid_someRealm someUser rfl
  have hfirst : Run (step someConfig) (Careful someConfig) (someRealm someUser)
      [(.mutateAccountSecurity someUser.id [] true, ())] s₁ := .single trivial h₁
  have hxy := (version_law someConfig hvalid (.nil _) hfirst).1.1 someUser.id 1 x y hx hy
  have hzw := (version_law someConfig hvalid (.nil _)
    (hfirst.append (.single hcareful h₂))).1.2 (firstGroup "Red").id 1 z w hz hw
  subst hxy hzw
  exact ⟨s₁, s₂, x, z, h₁, h₂, hx, hy, hversion, hz, hw⟩

/-- The user is in the first Group, and an administrator has set the claims of both. -/
def claimsSet : UserRow := { someUser with groups := ["/Blue", "/Red"] }

/-- An administrator deletes a member of a Group, and the Group keeps its version. Or the user with
the claims joins the second Group, and keeps the version. -/
theorem change_without_version :
    (∃ s' shown shown',
      step someConfig (someRealm someUser) (.deleteAccount someUser.id) = some (s', ()) ∧
        groupView (someRealm someUser).tables (firstGroup "Red").id = some (1, shown) ∧
        groupView s'.tables (firstGroup "Red").id = some (1, shown') ∧ shown ≠ shown') ∧
      ∃ s' shown shown',
        step someConfig (someRealm claimsSet) (.group (.replace (secondGroup "Blue").id.text
            ⟨"Blue", .missing, [claimsSet.id.text]⟩ 1)) = some (s', ()) ∧
          userView (someRealm claimsSet).tables claimsSet.id = some (1, shown) ∧
          userView s'.tables claimsSet.id = some (1, shown') ∧ shown ≠ shown' := by
  refine ⟨⟨_, _, _, rfl, rfl, rfl, ?_⟩, ⟨_, _, _, rfl, rfl, rfl, ?_⟩⟩
  · intro heq
    have hmem : someUser.id ∈ { u | u ∈ membersOf (someRealm someUser).tables (firstGroup "Red").id } :=
      List.mem_singleton.mpr rfl
    rw [(Prod.mk.inj (Prod.mk.inj heq).2).2] at hmem
    cases hmem
  · intro heq
    have hset := Set.ext_iff.mp (Prod.mk.inj heq).2 (secondGroup "Blue").id
    have hjoined := (hset.mpr ⟨rfl, rfl⟩).2
    exact absurd hjoined (by decide)

end AuthMe.Scim

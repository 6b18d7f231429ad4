import AuthMe.Scim.ConditionalWrites
import AuthMe.Scim.ListingAgree
import AuthMe.Scim.RoundTrip
import AuthMe.Scim.Versions

/-!
# The repository in PostgreSQL

The requests of the SCIM router over `src/src/repositories/scim-repository.js`. A write is one
transaction; it locks the row of the resource before it compares the version. Reads are single
statements: a User is read by one, a Group by two, and between these anything can be committed. Other
committed operations on the realm come between the operations of the requests as well.
-/

namespace AuthMe.Scim.Routes.Postgres

open Service (Entry Call Pool Output Answers Versioned Kept Admits Fallible Program)
open Transition (Run Succeeds)

/-! ## The repository -/

/-- What `randomUUID` draws, what `hashPassword` gives, and whether the operation fails on the way. A
`COMMIT` whose answer is lost is the `Scim.Event` of the write and a failure after it. -/
structure Choice where
  id : Uuid
  hash : String
  fails : Bool

def ofUser (record : UserRecord) : Record .user := ⟨record.attributes, record.id, record.version⟩

def ofGroup (record : GroupRecord) : Record .group := ⟨record.attributes, record.id, record.version⟩

/-- `rowToGroup(row, members)`. -/
def groupRecord (row : GroupRow) (members : List String) : Record .group :=
  ⟨⟨row.displayName, externalIdField row.externalId, members⟩, row.id, row.version⟩

/-- The answer of a transaction, and the store after it. -/
def settle {α β : Type} (s : Realm) (drawn : List Uuid) (f : α → β) (q : Query (Option α)) :
    Except Failure (Option β) × Realm :=
  match q.exec s.toStore with
  | (.ok a, t) => (.ok (a.map f), ⟨t, drawn ++ s.issued⟩)
  | (.error e, t) => (.error (.repository e), ⟨t, s.issued⟩)

def weakPassword : Failure :=
  .repository (.repository .invalidValue "password does not meet the AuthMe password policy.")

section Operations

variable (c : Config) (disabledPasswordHash : String) (s : Realm) (choice : Choice)

def createUser (attributes : User) : Except Failure (Option (Record .user)) × Realm :=
  match suppliedHash choice.hash attributes with
  | none => (.error weakPassword, s)
  | some passwordHash => settle s [choice.id] ofUser
      (Scim.createUser c.lower c.refuses choice.id attributes
        (passwordHash.getD disabledPasswordHash))

def replaceUser (id : String) (attributes : User) (expectedVersion : Nat) :
    Except Failure (Option (Record .user)) × Realm :=
  if (Uuid.parse id).isSome ∧ suppliedHash choice.hash attributes = none then
    (.error weakPassword, s)
  else settle s [] ofUser
    (Scim.replaceUser c.lower c.refuses c.realm id attributes expectedVersion
      ((suppliedHash choice.hash attributes).getD none))

/-- The answer of an operation that does not fail on the way. -/
def perform : (op : Op) → Option (Except Failure op.Answer × Realm)
  | .get .user id => some
      (.ok (((Uuid.parse id).bind s.tables.users.get?).map fun row => ofUser (rowToUser row)), s)
  | .get .group _ => none
  | .groupRow id => some (.ok ((Uuid.parse id).bind s.tables.groups.get?), s)
  | .memberRows id => some
      (.ok (((Uuid.parse id).map (membersOf s.tables)).getD [] |>.map Uuid.text), s)
  | .create .user attributes =>
    if choice.id ∈ s.issued then none
    else some (createUser c disabledPasswordHash s choice attributes)
  | .create .group attributes =>
    if choice.id ∈ s.issued then none
    else some (settle s [choice.id] ofGroup (Scim.createGroup c.db c.realm choice.id attributes))
  | .replace .user id attributes expectedVersion =>
    some (replaceUser c s choice id attributes expectedVersion)
  | .replace .group id attributes expectedVersion => some (settle s [] ofGroup
      (Scim.replaceGroup c.db c.realm id attributes expectedVersion))
  | .delete .user id expectedVersion =>
    some (settle s [] ofUser (Scim.deleteUser c.realm id expectedVersion))
  | .delete .group id expectedVersion =>
    some (settle s [] ofGroup (Scim.deleteGroup c.db c.realm id expectedVersion))
  | .listUserGroups userId => some
      (.ok (((Uuid.parse userId).map (groupsOf c.db s.tables)).getD [] |>.map fun group =>
        ⟨group.id.text, some group.displayName⟩), s)
  | .audit _ _ _ => some (.ok (), s)

def answer (op : Op) : Option (Except Failure op.Answer × Realm) :=
  if choice.fails then some (.error .other, s) else perform c disabledPasswordHash s choice op

end Operations

/-- `getUser`, and `#group` with its two statements. -/
def read : Reader
  | .user, id => ask (.get .user id)
  | .group, id => do
    let row ← ask (.groupRow id)
    match row with
    | none => return none
    | some row =>
      let members ← ask (.memberRows id)
      return some (groupRecord row members)

/-- The SCIM router over PostgreSQL, and what others commit. -/
def service (c : Config) (disabledPasswordHash : String) :
    Service operations Realm Request Reply Choice Scim.Event where
  program := handle c.lower read
  answer s choice op := answer c disabledPasswordHash s choice op
  change s e := (Scim.step c s e).map Prod.fst

/-! ## What is shown -/

def userShown (t : Tables) (id : Uuid) : Option (Nat × User) :=
  (t.users.get? id).map fun row => (row.version, rowAttributes row)

def groupShown (t : Tables) (id : Uuid) : Option (Nat × Group) :=
  (t.groups.get? id).map fun row => (row.version, (rowToGroup t row).attributes)

def shown : (k : ResourceType) → Uuid → Realm → Option (Nat × Attributes k)
  | .user, id, s => userShown s.tables id
  | .group, id, s => groupShown s.tables id

/-- A User is stored in the columns and the saved attributes that `replaceUser` writes, a Group with
its name, its external identifier and the set of its members. -/
def Stores (lower : LowerCase) : (k : ResourceType) → Uuid → Attributes k → Attributes k → Prop
  | .user, id, written, attributes => ∃ row : UserRow, row.id = id ∧ Holds lower written row ∧
      attributes = rowAttributes row
  | .group, _, written, attributes => attributes.displayName = written.displayName ∧
      attributes.externalId = externalIdField written.externalId.text? ∧
      ∃ ids, written.members.mapM Uuid.parse = some ids ∧
        ∀ m, m ∈ attributes.members ↔ m ∈ ids.map Uuid.text

/-- The schema holds. -/
structure WellFormed (s : Realm) : Prop where
  valid : Valid s
  nodup : s.tables.members.Nodup

def Known (id : Uuid) (s : Realm) : Prop := id ∈ s.issued

/-- The deletion of an account, by an administrator, does not raise the versions of its Groups. -/
def Ok (s : Realm) : Scim.Event → Prop
  | .deleteAccount id => ∀ g, s.tables.isMember g id = false
  | _ => True

section Shown

variable {t t' : Tables} {id : Uuid}

theorem membersOf_nodup (h : t.members.Nodup) : (membersOf t id).Nodup := by
  refine (List.perm_insertionSort _ _).nodup_iff.mpr ?_
  refine (List.nodup_map_iff_inj_on (h.filter _)).mpr ?_
  rintro ⟨g, u⟩ hm ⟨g', u'⟩ hm' heq
  simp only [List.mem_filter, decide_eq_true_eq] at hm hm'
  have huser : u = u' := heq
  rw [hm.2, hm'.2, huser]

theorem membersOf_congr (h : t.members.Nodup) (h' : t'.members.Nodup)
    (hmember : ∀ u, u ∈ membersOf t id ↔ u ∈ membersOf t' id) : membersOf t id = membersOf t' id :=
  List.Perm.eq_of_pairwise' (List.pairwise_insertionSort byId _)
    (List.pairwise_insertionSort byId _)
    ((List.perm_ext_iff_of_nodup (membersOf_nodup h) (membersOf_nodup h')).mpr hmember)

theorem userShown_succeeds (h : Succeeds (userView t id) (userView t' id)) :
    Succeeds (userShown t id) (userShown t' id) := by
  simp only [userView, userShown] at h ⊢
  cases hrow : t.users.get? id with
  | none =>
    rw [hrow] at h
    rw [Option.map_eq_none_iff.mp (h.gone rfl)]
    exact .refl _
  | some row =>
    cases hrow' : t'.users.get? id with
    | none => exact .none _
    | some row' =>
      rw [hrow, hrow'] at h
      obtain ⟨hle, heq⟩ := h.later _ _ _ _ rfl rfl
      exact .some hle fun hversion => (Prod.mk.inj (heq hversion)).1

theorem groupShown_succeeds (hnodup : t.members.Nodup) (hnodup' : t'.members.Nodup)
    (h : Succeeds (groupView t id) (groupView t' id)) :
    Succeeds (groupShown t id) (groupShown t' id) := by
  simp only [groupView, groupShown] at h ⊢
  cases hrow : t.groups.get? id with
  | none =>
    rw [hrow] at h
    rw [Option.map_eq_none_iff.mp (h.gone rfl)]
    exact .refl _
  | some row =>
    cases hrow' : t'.groups.get? id with
    | none => exact .none _
    | some row' =>
      rw [hrow, hrow'] at h
      obtain ⟨hle, heq⟩ := h.later _ _ _ _ rfl rfl
      refine .some hle ?_
      intro hversion
      obtain ⟨hname, hrest⟩ := Prod.mk.inj (heq hversion)
      obtain ⟨hexternalId, hmembers⟩ := Prod.mk.inj hrest
      have hid : row.id = id := Table.keyOf_of_get? hrow
      have hid' : row'.id = id := Table.keyOf_of_get? hrow'
      have hsame := membersOf_congr hnodup hnodup' fun u => Set.ext_iff.mp hmembers u
      simp only [rowToGroup, hname, hexternalId, hid, hid', hsame]

end Shown

/-! ## What is kept -/

section Kept

variable {c : Config} {s : Realm} {t : Store} {realm : String}

theorem stored_nodup {row : GroupRow} {members : List String} {s t : Store}
    (h : Stored c.db realm row members s t) (hnodup : s.tables.members.Nodup) :
    t.tables.members.Nodup := by
  obtain ⟨ids, affected, m, -, -, -, hreplaced, hsynced⟩ := h
  rw [hsynced.members]
  exact hreplaced.nodup hnodup

theorem perform_nodup {e : Scim.Event} {s t : Store} (h : e.perform c s = some t)
    (hnodup : s.tables.members.Nodup) : t.tables.members.Nodup := by
  cases e with
  | createUser id attributes passwordHash =>
    obtain ⟨_, h⟩ := committed_eq_some h
    rw [(createUser_ok h).2.2.1]
    exact hnodup
  | replaceUser id attributes expectedVersion passwordHash =>
    obtain ⟨_, h⟩ := committed_eq_some h
    obtain ⟨row, -, -, -, hchanged⟩ := replaceUser_ok h
    rw [hchanged.members]
    exact hnodup
  | deleteUser id expectedVersion =>
    obtain ⟨_, h⟩ := committed_eq_some h
    obtain ⟨row, -, -, -, htables⟩ := deleteUser_ok h
    rw [htables]
    exact hnodup.filter _
  | group op =>
    obtain ⟨_, h⟩ := committed_eq_some h
    cases op with
    | create id attributes => exact stored_nodup (createGroup_ok h).2 hnodup
    | replace id attributes expectedVersion =>
      obtain ⟨row, -, -, -, hstored⟩ := replaceGroup_ok h
      exact stored_nodup hstored hnodup
    | delete id expectedVersion =>
      obtain ⟨row, -, -, -, hsynced⟩ := deleteGroup_ok h
      rw [hsynced.members]
      exact hnodup.filter _
  | updateUser id patch =>
    obtain ⟨_, h⟩ := committed_eq_some h
    rw [(updateRow_ok (Transaction.atomically_ok.mp h)).2.members]
    exact hnodup
  | mutateAccountSecurity id patches applied =>
    obtain ⟨_, h⟩ := committed_eq_some h
    rcases mutateAccountSecurity_ok h with hsame | hchanged | hchanged
    · rw [hsame]
      exact hnodup
    · rw [hchanged.members]
      exact hnodup
    · rw [hchanged.members]
      exact hnodup
  | deleteAccount id =>
    obtain ⟨_, h⟩ := committed_eq_some h
    rcases deleteAccount_ok h with hsame | htables
    · rw [hsame]
      exact hnodup
    · rw [htables]
      exact hnodup.filter _

/-- What an operation on a group leaves, whatever the lists of its users were. -/
theorem group_shown {op : GroupOperation} {answer : Option GroupRecord} {s t : Store}
    (hlinked : Linked s.tables) (h : (op.perform c.db c.realm).exec s = (.ok answer, t)) :
    Linked t.tables ∧ (∀ u, Succeeds (userShown s.tables u) (userShown t.tables u)) ∧
      ∀ g, (∀ attributes, op ≠ .create g attributes) →
        Succeeds (groupView s.tables g) (groupView t.tables g) := by
  obtain ⟨⟨affected, m, hreached⟩, hexist, hgroups⟩ := group_ok h
  have hsynced := hreached.synced
  have hmember : ∀ g u, t.tables.isMember g u = (op.after s.tables).isMember g u := by
    intro g u
    rw [← hreached.member, Tables.isMember, Tables.isMember, hsynced.members]
  have hgroup : t.tables.groups = (op.after s.tables).groups := hsynced.groups.trans hreached.groups
  -- a row of `users` is left, or it has a new list and a new version
  have hrow : ∀ u row, s.tables.users.get? u = some row →
      ∃ row', t.tables.users.get? u = some row' ∧
        (row' = row ∨ row'.version = row.version + 1) := by
    intro u row hrow
    have hrow' : m.tables.users.get? u = some row := hreached.users ▸ hrow
    by_cases hout : Outdated c.db m.tables affected u
    · exact ⟨_, hsynced.outdated u row hrow' hout, .inr rfl⟩
    · exact ⟨row, (hsynced.current u hout).trans hrow', .inl rfl⟩
  refine ⟨?_, ?_, ?_⟩
  · intro g u hmem
    rw [hmember] at hmem
    obtain ⟨hsome, huser⟩ := hexist hlinked g u hmem
    obtain ⟨row, hget⟩ := Option.isSome_iff_exists.mp huser
    obtain ⟨row', hget', -⟩ := hrow u row hget
    rw [hgroup, hget']
    exact ⟨hsome, rfl⟩
  · intro u
    cases hget : s.tables.users.get? u with
    | none =>
      have hout : ¬Outdated c.db m.tables affected u := by
        rintro ⟨-, row, hsome, -⟩
        rw [hreached.users, hget] at hsome
        cases hsome
      rw [userShown, userShown, hsynced.current u hout, hreached.users]
      exact .refl _
    | some row =>
      obtain ⟨row', hget', hsame | hversion⟩ := hrow u row hget
      · rw [userShown, userShown, hget, hget', hsame]
        exact .refl _
      · rw [userShown, userShown, hget, hget']
        exact .some (by omega) fun heq => by omega
  · intro g hg
    have hsame : groupView t.tables g = groupView (op.after s.tables) g :=
      groupView_congr (by rw [hgroup]) fun u => hmember g u
    rw [hsame]
    exact (hgroups g hg).2

/-- **Step lemma.** -/
theorem perform_shown {e : Scim.Event} (hs : WellFormed s) (hok : Ok s e)
    (h : e.perform c s.toStore = some t) :
    Linked t.tables ∧ t.tables.members.Nodup ∧
      ∀ k id, id ∉ e.drawn → Succeeds (shown k id s) (shown k id ⟨t, e.drawn ++ s.issued⟩) := by
  have hnodup := perform_nodup h hs.nodup
  have hsteps : Careful c s e → Linked t.tables ∧ t.tables.members.Nodup ∧
      ∀ k id, id ∉ e.drawn → Succeeds (shown k id s) (shown k id ⟨t, e.drawn ++ s.issued⟩) := by
    intro hcareful
    obtain ⟨hlinked, huser, hgroup⟩ := perform_steps c hs.valid.linked hcareful h
    refine ⟨hlinked, hnodup, ?_⟩
    intro k id hid
    cases k with
    | user => exact userShown_succeeds (huser id hid)
    | group => exact groupShown_succeeds hs.nodup hnodup (hgroup id hid)
  cases e with
  | group op =>
    obtain ⟨_, hexec⟩ := committed_eq_some h
    obtain ⟨hlinked, huser, hgroup⟩ := group_shown hs.valid.linked hexec
    refine ⟨hlinked, hnodup, ?_⟩
    intro k id hid
    cases k with
    | user => exact huser id
    | group =>
      refine groupShown_succeeds hs.nodup hnodup (hgroup id ?_)
      rintro attributes rfl
      exact hid List.mem_cons_self
  | deleteAccount id => exact hsteps hok
  | _ => exact hsteps trivial

theorem kept_event (k : ResourceType) {e : Scim.Event} (hs : WellFormed s) (hok : Ok s e)
    (hfresh : ∀ id ∈ e.drawn, id ∉ s.issued) (h : e.perform c s.toStore = some t) :
    Kept WellFormed Known (shown k) s ⟨t, e.drawn ++ s.issued⟩ := by
  obtain ⟨hlinked, hnodup, hsucceeds⟩ := perform_shown hs hok h
  have hissued : ∀ (k : ResourceType) id x,
      shown k id ⟨t, e.drawn ++ s.issued⟩ = some x → id ∈ e.drawn ++ s.issued := by
    intro k id x hx
    by_contra hid
    rw [List.mem_append, not_or] at hid
    have hnone : shown k id s = none := by
      cases k with
      | user =>
        rw [shown, userShown, Option.map_eq_none_iff, ← Option.not_isSome_iff_eq_none]
        exact fun hsome => hid.2 (hs.valid.user id hsome)
      | group =>
        rw [shown, groupShown, Option.map_eq_none_iff, ← Option.not_isSome_iff_eq_none]
        exact fun hsome => hid.2 (hs.valid.group id hsome)
    rw [(hsucceeds k id hid.1).gone hnone] at hx
    cases hx
  refine ⟨⟨⟨hlinked, ?_, ?_⟩, hnodup⟩, fun id hid => List.mem_append_right _ hid,
    fun id hid => hsucceeds k id fun hdrawn => hfresh id hdrawn hid⟩
  · intro u hu
    obtain ⟨row, hrow⟩ := Option.isSome_iff_exists.mp hu
    refine hissued .user u (row.version, rowAttributes row) ?_
    rw [shown, userShown, hrow]
    rfl
  · intro g hg
    obtain ⟨row, hrow⟩ := Option.isSome_iff_exists.mp hg
    refine hissued .group g (row.version, (rowToGroup t.tables row).attributes) ?_
    rw [shown, groupShown, hrow]
    rfl

end Kept

/-! ## What the operations do -/

/-- A transaction that fails has done nothing. -/
def Undone {α : Type} (q : Query α) : Prop := ∀ s e t, q.exec s = (.error e, t) → t = s

section Undone

variable {α : Type}

theorem undone_throw (e : ScimError) : Undone (throw e : Query α) := by
  intro s e' t h
  cases h
  rfl

theorem undone_withTransaction (q : Query α) : Undone (withTransaction q) :=
  fun _ _ _ h => Transaction.atomically_error h

theorem undone_mapError (f : ScimError → ScimError) {q : Query α} (hq : Undone q) :
    Undone (Transaction.mapError f q) := by
  intro s e t h
  obtain ⟨e', h'⟩ := Transaction.mapError_error h
  exact hq s e' t h'

theorem undone_replaceUser (c : Config) (id : String) (attributes : User) (expectedVersion : Nat)
    (passwordHash : Option String) :
    Undone (Scim.replaceUser c.lower c.refuses c.realm id attributes expectedVersion
      passwordHash) := by
  unfold Scim.replaceUser
  split
  · exact undone_throw _
  · exact undone_mapError _ (undone_withTransaction _)

theorem undone_deleteUser (realm id : String) (expectedVersion : Nat) :
    Undone (Scim.deleteUser realm id expectedVersion) := by
  unfold Scim.deleteUser
  split
  · exact undone_throw _
  · exact undone_withTransaction _

theorem undone_replaceGroup (c : Config) (id : String) (attributes : Group)
    (expectedVersion : Nat) :
    Undone (Scim.replaceGroup c.db c.realm id attributes expectedVersion) := by
  unfold Scim.replaceGroup
  split
  · exact undone_throw _
  · exact undone_mapError _ (undone_withTransaction _)

theorem undone_deleteGroup (c : Config) (id : String) (expectedVersion : Nat) :
    Undone (Scim.deleteGroup c.db c.realm id expectedVersion) := by
  unfold Scim.deleteGroup
  split
  · exact undone_throw _
  · exact undone_withTransaction _

end Undone

section Settle

variable {α β : Type} {s s' : Realm} {drawn : List Uuid} {f : α → β} {q : Query (Option α)}

theorem settle_ok {answer : Option β} (h : settle s drawn f q = (.ok answer, s')) :
    ∃ a t, q.exec s.toStore = (.ok a, t) ∧ s' = ⟨t, drawn ++ s.issued⟩ := by
  unfold settle at h
  split at h
  · rename_i a t hexec
    exact ⟨a, t, hexec, (Prod.mk.inj h).2.symm⟩
  · cases h

theorem settle_error (hq : Undone q) {e : Failure} (h : settle s drawn f q = (.error e, s')) :
    s' = s := by
  unfold settle at h
  split at h
  · cases h
  · rename_i e' t hexec
    rw [← (Prod.mk.inj h).2, hq _ _ _ hexec]

theorem committed_of_exec {a : Option α} {s t : Store} (h : q.exec s = (.ok a, t)) :
    committed q s = some t := by
  rw [committed, h]

/-- A transaction of the repository is one of the operations on a realm. -/
theorem settle_kept {c : Config} {k : ResourceType} {res : Except Failure (Option β)}
    {e : Scim.Event} (hs : WellFormed s) (hq : Undone q) (hok : Ok s e)
    (hfresh : ∀ id ∈ e.drawn, id ∉ s.issued) (hdrawn : e.drawn = drawn)
    (he : ∀ t, committed q s.toStore = some t → e.perform c s.toStore = some t)
    (h : settle s drawn f q = (res, s')) : Kept WellFormed Known (shown k) s s' := by
  cases res with
  | ok answer =>
    obtain ⟨a, t, hexec, rfl⟩ := settle_ok h
    rw [← hdrawn]
    exact kept_event k hs hok hfresh (he t (committed_of_exec hexec))
  | error e =>
    rw [settle_error hq h]
    exact .refl hs

end Settle

section Answer

variable {c : Config} {disabledPasswordHash : String} {s s' : Realm} {choice : Choice}
  {k : ResourceType}

theorem createUser_kept {attributes : User} {res : Except Failure (Option (Record .user))}
    (hs : WellFormed s) (hnew : choice.id ∉ s.issued)
    (h : createUser c disabledPasswordHash s choice attributes = (res, s')) :
    Kept WellFormed Known (shown k) s s' := by
  unfold createUser at h
  split at h
  · cases h
    exact .refl hs
  · rename_i passwordHash _
    refine settle_kept (e := .createUser choice.id attributes
      (passwordHash.getD disabledPasswordHash)) hs (undone_mapError _ (undone_withTransaction _))
      trivial ?_ rfl (fun _ hcommit => hcommit) h
    intro id hid
    rw [List.mem_singleton.mp hid]
    exact hnew

theorem replaceUser_kept {id : String} {attributes : User} {expectedVersion : Nat}
    {res : Except Failure (Option (Record .user))} (hs : WellFormed s)
    (h : replaceUser c s choice id attributes expectedVersion = (res, s')) :
    Kept WellFormed Known (shown k) s s' := by
  unfold replaceUser at h
  split at h
  · cases h
    exact .refl hs
  · exact settle_kept (e := .replaceUser id attributes expectedVersion _) hs
      (undone_replaceUser c id attributes expectedVersion _) trivial (fun _ hid => nomatch hid) rfl
      (fun _ hcommit => hcommit) h

/-- An operation that writes nothing. -/
theorem perform_read {op : Op} {res : Except Failure op.Answer} (hop : op.isWrite = false)
    (h : perform c disabledPasswordHash s choice op = some (res, s')) :
    s' = s ∧ ∀ e, res ≠ .error e := by
  cases op with
  | get k id =>
    cases k with
    | user =>
      cases h
      exact ⟨rfl, fun e he => nomatch he⟩
    | group => cases h
  | groupRow _ =>
    cases h
    exact ⟨rfl, fun e he => nomatch he⟩
  | memberRows _ =>
    cases h
    exact ⟨rfl, fun e he => nomatch he⟩
  | listUserGroups _ =>
    cases h
    exact ⟨rfl, fun e he => nomatch he⟩
  | audit _ _ _ =>
    cases h
    exact ⟨rfl, fun e he => nomatch he⟩
  | _ => cases hop

theorem perform_kept {op : Op} {res : Except Failure op.Answer} (hs : WellFormed s)
    (h : perform c disabledPasswordHash s choice op = some (res, s')) :
    Kept WellFormed Known (shown k) s s' := by
  have hsingle : choice.id ∉ s.issued → ∀ id ∈ [choice.id], id ∉ s.issued := by
    intro hnew id hid
    rw [List.mem_singleton.mp hid]
    exact hnew
  cases op with
  | create k' attributes =>
    cases k' with
    | user =>
      change (if choice.id ∈ s.issued then none else some _) = _ at h
      split at h
      · cases h
      · rename_i hnew
        exact createUser_kept hs hnew (Option.some.inj h)
    | group =>
      change (if choice.id ∈ s.issued then none else some _) = _ at h
      split at h
      · cases h
      · rename_i hnew
        exact settle_kept (e := .group (.create choice.id attributes)) hs
          (undone_mapError _ (undone_withTransaction _)) trivial (hsingle hnew) rfl
          (fun _ hcommit => hcommit) (Option.some.inj h)
  | replace k' id attributes expectedVersion =>
    cases k' with
    | user => exact replaceUser_kept hs (Option.some.inj h)
    | group =>
      exact settle_kept (e := .group (.replace id attributes expectedVersion)) hs
        (undone_replaceGroup c id attributes expectedVersion) trivial (fun _ hid => nomatch hid) rfl
        (fun _ hcommit => hcommit) (Option.some.inj h)
  | delete k' id expectedVersion =>
    cases k' with
    | user =>
      exact settle_kept (e := .deleteUser id expectedVersion) hs
        (undone_deleteUser c.realm id expectedVersion) trivial (fun _ hid => nomatch hid) rfl
        (fun _ hcommit => hcommit) (Option.some.inj h)
    | group =>
      exact settle_kept (e := .group (.delete id expectedVersion)) hs
        (undone_deleteGroup c id expectedVersion) trivial (fun _ hid => nomatch hid) rfl
        (fun _ hcommit => hcommit) (Option.some.inj h)
  | _ =>
    rw [(perform_read rfl h).1]
    exact .refl hs

theorem perform_error {op : Op} {e : Failure}
    (h : perform c disabledPasswordHash s choice op = some (.error e, s')) : s' = s := by
  cases op with
  | create k' attributes =>
    cases k' with
    | user =>
      change (if choice.id ∈ s.issued then none else some _) = _ at h
      split at h
      · cases h
      · have hcreate := Option.some.inj h
        unfold createUser at hcreate
        split at hcreate
        · exact (Prod.mk.inj hcreate).2.symm
        · exact settle_error (undone_mapError _ (undone_withTransaction _)) hcreate
    | group =>
      change (if choice.id ∈ s.issued then none else some _) = _ at h
      split at h
      · cases h
      · exact settle_error (undone_mapError _ (undone_withTransaction _)) (Option.some.inj h)
  | replace k' id attributes expectedVersion =>
    cases k' with
    | user =>
      have hreplace := Option.some.inj h
      unfold replaceUser at hreplace
      split at hreplace
      · exact (Prod.mk.inj hreplace).2.symm
      · exact settle_error (undone_replaceUser c id attributes expectedVersion _) hreplace
    | group =>
      exact settle_error (undone_replaceGroup c id attributes expectedVersion) (Option.some.inj h)
  | delete k' id expectedVersion =>
    cases k' with
    | user => exact settle_error (undone_deleteUser c.realm id expectedVersion) (Option.some.inj h)
    | group => exact settle_error (undone_deleteGroup c id expectedVersion) (Option.some.inj h)
  | _ => exact (perform_read rfl h).1

/-! ## Writes -/

theorem eq_id_of_parse {id u : Uuid} (h : Uuid.parse id.text = some u) : id = u :=
  Option.some.inj ((Uuid.parse_text id).symm.trans h)

theorem userShown_of_get? {t : Tables} {row : UserRow} (h : t.users.get? row.id = some row) :
    userShown t row.id = some (row.version, rowAttributes row) := by
  rw [userShown, h]
  rfl

theorem groupShown_of_get? {t : Tables} {row : GroupRow} (h : t.groups.get? row.id = some row) :
    groupShown t row.id = some (row.version, (rowToGroup t row).attributes) := by
  rw [groupShown, h]
  rfl

theorem replaceUser_shown {id : Uuid} {attributes : User} {expectedVersion : Nat}
    {answer : Option (Record .user)}
    (h : replaceUser c s choice id.text attributes expectedVersion = (.ok answer, s')) :
    (∃ found, shown .user id s = some (expectedVersion, found)) ∧
      Leaves shown (Stores c.lower) .user id expectedVersion s' (some attributes) := by
  unfold replaceUser at h
  split at h
  · cases h
  · obtain ⟨a, t, hexec, rfl⟩ := settle_ok h
    obtain ⟨row, hid, hrow, rfl, hchanged⟩ := replaceUser_ok hexec
    have hkey := eq_id_of_parse hid
    subst hkey
    refine ⟨⟨rowAttributes row, userShown_of_get? hrow⟩, ?_⟩
    have hafter := hchanged.users row.id
    rw [if_pos rfl, hrow] at hafter
    let passwordHash := ((suppliedHash choice.hash attributes).getD none).getD row.passwordHash
    refine ⟨_, ?_, _, ?_, holds_replaceUser row passwordHash, rfl⟩
    · show userShown t.tables row.id = some (row.version + 1, _)
      rw [userShown, hafter]
      rfl
    · rfl

theorem deleteUser_shown {id : Uuid} {expectedVersion : Nat} {answer : Option (Record .user)}
    (h : settle s [] ofUser (Scim.deleteUser c.realm id.text expectedVersion) = (.ok answer, s')) :
    (∃ found, shown .user id s = some (expectedVersion, found)) ∧
      Leaves shown (Stores c.lower) .user id expectedVersion s' none := by
  obtain ⟨a, t, hexec, rfl⟩ := settle_ok h
  obtain ⟨row, hid, hrow, rfl, htables⟩ := deleteUser_ok hexec
  have hkey := eq_id_of_parse hid
  subst hkey
  refine ⟨⟨rowAttributes row, userShown_of_get? hrow⟩, ?_⟩
  show userShown t.tables row.id = none
  rw [userShown, htables, eraseUser, Table.get?_erase, if_pos rfl]
  rfl

theorem replaceGroup_shown {id : Uuid} {attributes : Group} {expectedVersion : Nat}
    {answer : Option (Record .group)}
    (h : settle s [] ofGroup
      (Scim.replaceGroup c.db c.realm id.text attributes expectedVersion) = (.ok answer, s')) :
    (∃ found, shown .group id s = some (expectedVersion, found)) ∧
      Leaves shown (Stores c.lower) .group id expectedVersion s' (some attributes) := by
  obtain ⟨a, t, hexec, rfl⟩ := settle_ok h
  obtain ⟨row, hid, hrow, rfl, ids, affected, m, hids, -, -, hreplaced, hsynced⟩ :=
    replaceGroup_ok hexec
  have hkey := eq_id_of_parse hid
  subst hkey
  let stored : GroupRow :=
    ⟨row.id, attributes.externalId.text?, attributes.displayName, row.version + 1⟩
  have hstored : t.tables.groups.get? stored.id = some stored := by
    rw [hsynced.groups, hreplaced.groups]
    exact (Table.get?_insert ..).trans (if_pos rfl)
  refine ⟨⟨_, groupShown_of_get? hrow⟩, (rowToGroup t.tables stored).attributes,
    groupShown_of_get? hstored, rfl, rfl, ids, hids, ?_⟩
  · intro text
    show text ∈ (membersOf t.tables row.id).map Uuid.text ↔ text ∈ ids.map Uuid.text
    have hmembers : ∀ u, u ∈ membersOf t.tables row.id ↔ u ∈ ids := by
      intro u
      rw [mem_membersOf, Tables.isMember, hsynced.members]
      exact (hreplaced.member row.id u).trans (by rw [if_pos rfl])
    simp only [List.mem_map, hmembers]

theorem deleteGroup_shown {id : Uuid} {expectedVersion : Nat} {answer : Option (Record .group)}
    (h : settle s [] ofGroup (Scim.deleteGroup c.db c.realm id.text expectedVersion) =
      (.ok answer, s')) :
    (∃ found, shown .group id s = some (expectedVersion, found)) ∧
      Leaves shown (Stores c.lower) .group id expectedVersion s' none := by
  obtain ⟨a, t, hexec, rfl⟩ := settle_ok h
  obtain ⟨row, hid, hrow, rfl, hsynced⟩ := deleteGroup_ok hexec
  have hkey := eq_id_of_parse hid
  subst hkey
  refine ⟨⟨_, groupShown_of_get? hrow⟩, ?_⟩
  show groupShown t.tables row.id = none
  rw [groupShown, hsynced.groups]
  show ((s.tables.groups.erase row.id).get? row.id).map _ = none
  rw [Table.get?_erase, if_pos rfl]
  rfl

end Answer

/-! ## The service -/

section Service

variable {c : Config} {disabledPasswordHash : String}

/-- An answer that is no failure on the way. -/
theorem answer_cases {s s' : Realm} {choice : Choice} {op : Op} {res : Except Failure op.Answer}
    (h : answer c disabledPasswordHash s choice op = some (res, s')) :
    (res = .error .other ∧ s' = s) ∨
      perform c disabledPasswordHash s choice op = some (res, s') := by
  unfold answer at h
  split at h
  · cases h
    exact .inl ⟨rfl, rfl⟩
  · exact .inr h

theorem answer_ok {s s' : Realm} {choice : Choice} {op : Op} {a : op.Answer}
    (h : answer c disabledPasswordHash s choice op = some (.ok a, s')) :
    perform c disabledPasswordHash s choice op = some (.ok a, s') := by
  rcases answer_cases h with ⟨hres, -⟩ | hperform
  · cases hres
  · exact hperform

theorem versioned (c : Config) (disabledPasswordHash : String) (k : ResourceType) :
    Versioned (service c disabledPasswordHash) Ok WellFormed Known (shown k) where
  known := by
    intro id s x hs hx
    cases k with
    | user =>
      obtain ⟨row, hrow, -⟩ := Option.map_eq_some_iff.mp hx
      exact hs.valid.user id (by rw [hrow]; rfl)
    | group =>
      obtain ⟨row, hrow, -⟩ := Option.map_eq_some_iff.mp hx
      exact hs.valid.group id (by rw [hrow]; rfl)
  answer := by
    intro s choice op res s' hs h
    rcases answer_cases h with ⟨-, rfl⟩ | hperform
    · exact .refl hs
    · exact perform_kept hs hperform
  change := by
    intro s e s' hs hok h
    obtain ⟨⟨t, o⟩, hstep, rfl⟩ := Option.map_eq_some_iff.mp h
    rw [Scim.step] at hstep
    split at hstep
    · cases hstep
    · rename_i hfresh
      obtain ⟨t', hperform, heq⟩ := Option.map_eq_some_iff.mp hstep
      cases heq
      refine kept_event k hs hok ?_ hperform
      intro id hid hissued
      exact hfresh (List.any_eq_true.mpr ⟨id, hid, List.contains_iff_mem.mpr hissued⟩)

/-- The record is what a `getUser` has answered, or what the two statements of `#group` have. -/
def HasRead (log : List (Entry operations Realm)) : (k : ResourceType) → Record k → Prop
  | .user, record => ∃ id before after, (⟨.get .user id, Except.ok (some record), before, after⟩ :
      Entry operations Realm) ∈ log
  | .group, record => ∃ id row members b₁ a₁ b₂ a₂ l l', log = l ++
      (⟨.memberRows id, Except.ok members, b₂, a₂⟩ : Entry operations Realm) ::
        ⟨.groupRow id, Except.ok (some row), b₁, a₁⟩ :: l' ∧ record = groupRecord row members

theorem answers_fails {x : Entry operations Realm} (h : Answers (service c disabledPasswordHash) x)
    (hop : x.op.isWrite = false) {e : Failure} (he : x.res = Except.error e) : e = .other := by
  obtain ⟨choice, hanswer⟩ := h
  rcases answer_cases hanswer with ⟨hres, -⟩ | hperform
  · cases he.symm.trans hres
    rfl
  · exact absurd he ((perform_read hop hperform).2 e)

theorem reads (c : Config) (disabledPasswordHash : String) :
    Reads (Answers (service c disabledPasswordHash)) read HasRead where
  fails x hanswer hop e he := answers_fails hanswer hop he
  obeys := by
    intro k id P Q log hP hQ
    cases k with
    | user =>
      refine ⟨hP log _ rfl, ?_⟩
      intro res before after hanswer
      refine hQ [⟨.get .user id, res, before, after⟩] res ?_ ?_
      · intro x hx
        rw [List.mem_singleton.mp hx]
        exact not_changes_of_read rfl
      · cases res with
        | error e => exact answers_fails hanswer rfl rfl
        | ok found =>
          rintro record rfl
          exact ⟨id, before, after, List.mem_cons_self⟩
    | group =>
      show Program.Obeys _ P Q log (ask (.groupRow id) >>= _).run
      rw [Fallible.obeys_bind]
      refine ⟨hP log _ rfl, ?_⟩
      intro res b₁ a₁ hanswer
      have hread : ∀ x ∈ [(⟨.groupRow id, res, b₁, a₁⟩ : Entry operations Realm)], ¬Changes x := by
        intro x hx
        rw [List.mem_singleton.mp hx]
        exact not_changes_of_read rfl
      cases res with
      | error e => exact hQ _ (.error e) hread (answers_fails hanswer rfl rfl)
      | ok found =>
        cases found with
        | none => exact hQ _ (.ok none) hread fun record hrecord => nomatch hrecord
        | some row =>
          show Program.Obeys _ P Q _ (ask (.memberRows id) >>= _).run
          rw [Fallible.obeys_bind]
          refine ⟨hP _ _ rfl, ?_⟩
          intro res b₂ a₂ hanswer
          have hreads : ∀ x ∈ [(⟨.memberRows id, res, b₂, a₂⟩ : Entry operations Realm),
              ⟨.groupRow id, Except.ok (some row), b₁, a₁⟩], ¬Changes x := by
            intro x hx
            rcases List.mem_cons.mp hx with rfl | hx
            · exact not_changes_of_read rfl
            · exact hread x hx
          cases res with
          | error e => exact hQ _ (.error e) hreads (answers_fails hanswer rfl rfl)
          | ok members =>
            refine hQ _ (.ok (some (groupRecord row members))) hreads ?_
            rintro record ⟨⟩
            exact ⟨id, row, members, b₁, a₁, b₂, a₂, [], log, rfl, rfl⟩

/-- The two statements of `#group` may see different states. If a write then finds the version of
the first one, both have seen the same Group. -/
theorem group_recalled {log : List (Entry operations Realm)} {current : Record .group}
    {w : Entry operations Realm} {attributes : Group}
    (hlog : ∀ x ∈ log, Answers (service c disabledPasswordHash) x ∧ WellFormed x.before)
    (hpairs : (w :: log).Pairwise fun w x => Kept WellFormed Known (shown .group) x.after w.before)
    (hread : HasRead log .group current)
    (hw : shown .group current.id w.before = some (current.version, attributes)) :
    attributes = current.attributes := by
  obtain ⟨id, row, members, b₁, a₁, b₂, a₂, l, l', rfl, rfl⟩ := hread
  obtain ⟨⟨choice₁, hanswer₁⟩, hwf₁⟩ := hlog ⟨.groupRow id, Except.ok (some row), b₁, a₁⟩
    (List.mem_append_right _ (List.mem_cons_of_mem _ List.mem_cons_self))
  obtain ⟨⟨choice₂, hanswer₂⟩, hwf₂⟩ := hlog ⟨.memberRows id, Except.ok members, b₂, a₂⟩
    (List.mem_append_right _ List.mem_cons_self)
  obtain ⟨hw₂, hpairs⟩ := List.pairwise_cons.mp hpairs
  obtain ⟨h₁₂, -⟩ := List.pairwise_cons.mp (List.pairwise_append.mp hpairs).2.1
  have hkept₁ : Kept WellFormed Known (shown .group) a₁ b₂ := h₁₂ _ List.mem_cons_self
  have hkept₂ : Kept WellFormed Known (shown .group) a₂ w.before :=
    hw₂ _ (List.mem_append_right _ List.mem_cons_self)
  have hperform₁ : perform c disabledPasswordHash b₁ choice₁ (.groupRow id) =
    some (.ok (some row), a₁) := answer_ok hanswer₁
  have hperform₂ : perform c disabledPasswordHash b₂ choice₂ (.memberRows id) =
    some (.ok members, a₂) := answer_ok hanswer₂
  obtain ⟨hrow, rfl⟩ := Prod.mk.inj (Option.some.inj hperform₁)
  obtain ⟨hmembers, rfl⟩ := Prod.mk.inj (Option.some.inj hperform₂)
  obtain ⟨u, hid, hget⟩ := Option.bind_eq_some_iff.mp (Except.ok.inj hrow)
  have hkey : row.id = u := Table.keyOf_of_get? hget
  subst hkey
  have hknown : Known row.id b₁ := hwf₁.valid.group row.id (by rw [hget]; rfl)
  obtain ⟨hmiddle, hlast⟩ := (hkept₁.succeeds row.id hknown).between
    (hkept₂.succeeds row.id (hkept₁.known row.id hknown)) (groupShown_of_get? hget) hw
  obtain ⟨row₂, hget₂, hsame⟩ := Option.map_eq_some_iff.mp hmiddle
  have hkey₂ : row₂.id = row.id := Table.keyOf_of_get? hget₂
  have hmembers' : (membersOf b₂.tables row.id).map Uuid.text = members := by
    have h := Except.ok.inj hmembers
    rw [hid] at h
    exact h
  have hattributes : (rowToGroup b₂.tables row₂).attributes = (rowToGroup b₁.tables row).attributes :=
    (Prod.mk.inj hsame).2
  have hlist : (membersOf b₂.tables row₂.id).map Uuid.text =
      (membersOf b₁.tables row.id).map Uuid.text := congrArg Group.members hattributes
  rw [hkey₂, hmembers'] at hlist
  have hfound : attributes = (rowToGroup b₁.tables row).attributes :=
    (Prod.mk.inj (Option.some.inj (hw.symm.trans hlast))).2
  rw [hfound, hlist]
  rfl

theorem backend (c : Config) (disabledPasswordHash : String) :
    Backend c.lower (service c disabledPasswordHash) read Ok WellFormed Known shown (Stores c.lower)
      HasRead where
  program := rfl
  reads := reads c disabledPasswordHash
  versioned := versioned c disabledPasswordHash
  recalled := by
    intro k log current w attributes hlog hpairs hread hw
    cases k with
    | group => exact group_recalled hlog hpairs hread hw
    | user =>
      obtain ⟨id, before, after, hmem⟩ := hread
      obtain ⟨⟨choice, hanswer⟩, hwf⟩ := hlog _ hmem
      have hkept := (List.pairwise_cons.mp hpairs).1 _ hmem
      have hperform : perform c disabledPasswordHash before choice (.get .user id) =
        some (.ok (some current), after) := answer_ok hanswer
      obtain ⟨hfound, rfl⟩ := Prod.mk.inj (Option.some.inj hperform)
      obtain ⟨row, hrow, rfl⟩ := Option.map_eq_some_iff.mp (Except.ok.inj hfound)
      obtain ⟨u, -, hget⟩ := Option.bind_eq_some_iff.mp hrow
      have hkey : row.id = u := Table.keyOf_of_get? hget
      subst hkey
      have hknown : Known row.id before := hwf.valid.user row.id (by rw [hget]; rfl)
      exact (((hkept.succeeds row.id hknown).later _ _ _ _ (userShown_of_get? hget) hw).2 rfl).symm
  wrote := by
    rintro k id version next x ⟨choice, hanswer⟩ - hwrote
    cases hwrote with
    | @replaced attributes record before after =>
      cases k with
      | user => exact replaceUser_shown (Option.some.inj (answer_ok hanswer))
      | group => exact replaceGroup_shown (Option.some.inj (answer_ok hanswer))
    | @deleted record before after =>
      cases k with
      | user => exact deleteUser_shown (Option.some.inj (answer_ok hanswer))
      | group => exact deleteGroup_shown (Option.some.inj (answer_ok hanswer))
  unchanged := by
    rintro ⟨op, res, before, after⟩ ⟨choice, hanswer⟩ hchanges
    rcases answer_cases hanswer with ⟨-, hsame⟩ | hperform
    · exact hsame
    cases hop : op.isWrite with
    | false => exact (perform_read hop hperform).1
    | true =>
      cases hres : (res : Except Failure op.Answer) with
      | ok a =>
        refine absurd ⟨hop, ?_⟩ hchanges
        rw [hres]
        rfl
      | error e =>
        rw [hres] at hperform
        exact perform_error hperform

end Service

/-- **No update is lost in PostgreSQL.** In every run in which no administrator deletes the account of
a member of a Group, every request writes only what it makes of the record that it replaces, and of
two writes of a resource the later one replaces a later version. -/
theorem transactional_writes (c : Config) (disabledPasswordHash : String) {s : Realm}
    (hs : WellFormed s)
    {tr : List (Service.Event Request Choice Scim.Event × Output operations Realm)}
    {p : Pool operations Realm Request Reply}
    (hrun : Run (Service.step (service c disabledPasswordHash)) (Admits Ok) (.initial s) tr p) :
    (∀ n call, p.calls n = some call → Conditional c.lower shown (Stores c.lower) call) ∧
      ∀ tr₁ n₁ c₁ x₁ tr₂ n₂ c₂ x₂ tr₃, tr = tr₁ ++ (.resume n₁ c₁, .replied n₁ x₁) ::
          (tr₂ ++ (.resume n₂ c₂, .replied n₂ x₂) :: tr₃) →
        ∀ k (id : Uuid) v₁ v₂ next₁ next₂, Wrote k id.text v₁ next₁ x₁ →
          Wrote k id.text v₂ next₂ x₂ → v₁ < v₂ := by
  refine ⟨fun n call hcall => (backend c disabledPasswordHash).conditional hrun hs hcall, ?_⟩
  rintro tr₁ n₁ c₁ x₁ tr₂ n₂ c₂ x₂ tr₃ rfl k id v₁ v₂ next₁ next₂ h₁ h₂
  exact (backend c disabledPasswordHash).raised hs hrun h₁ h₂

/-! ### A Group between two statements -/

/-- The first Group, renamed and without its members. -/
def emptied : Request where
  method := .put
  resourceType := .group
  id := (firstGroup "Red").id.text
  ifMatch := none
  ifNoneMatch := none
  body := .object [("displayName", .string "Green"), ("members", .array [])]

def somewhere (fails : Bool) : Choice := ⟨someUser.id, "", fails⟩

theorem wellFormed_someRealm : WellFormed (someRealm someUser) :=
  ⟨valid_someRealm someUser rfl, List.nodup_singleton _⟩

def putsBetween : List (Service.Event Request Choice Scim.Event) :=
  [.start emptied, .start emptied, .resume 0 (somewhere false), .resume 1 (somewhere false),
    .resume 1 (somewhere false), .resume 1 (somewhere false), .resume 0 (somewhere false),
    .resume 0 (somewhere false)]

/-- A client replaces a Group between the two statements with which another one reads it. The other
one has the old name beside the new members, and is refused. -/
theorem transactional_writes_between : ∃ tr p call,
    Run (Service.step (service someConfig "")) (Admits Ok) (.initial (someRealm someUser)) tr p ∧
      p.calls 0 = some call ∧ call.program = .done (.failed 412
        "The SCIM Group changed since it was read." none) ∧
      ∀ x ∈ call.log, x.after = x.before := by
  have h : Transition.exec (Service.step (service someConfig "")) Transition.Always
      (.initial (someRealm someUser)) putsBetween = some (_, _) := rfl
  have hrun : Run (Service.step (service someConfig "")) (Admits Ok)
      (.initial (someRealm someUser)) _ _ :=
    (Run.of_exec h).strengthen (P := fun x => x.1 ∈ putsBetween)
      (by
        intro p e p' o _ _ he
        simp only [putsBetween, List.mem_cons, List.not_mem_nil, or_false] at he
        rcases he with rfl | rfl | rfl | rfl | rfl | rfl | rfl | rfl <;> trivial)
      fun x hx => (List.of_mem_zip hx).1
  have hlaw := (transactional_writes someConfig "" wellFormed_someRealm hrun).1 0 _ rfl
  exact ⟨_, _, _, hrun, rfl, rfl, hlaw.refused 412 _ none rfl (by decide)⟩

end AuthMe.Scim.Routes.Postgres

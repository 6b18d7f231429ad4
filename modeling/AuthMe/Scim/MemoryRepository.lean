import AuthMe.Collections.Table
import AuthMe.Scim.ConditionalWrites

/-!
# The repository in memory

`src/src/scim/memory-repository.js`, for one realm. Every method runs without an `await`, so it is one
operation of the requests that share the repository. `randomUUID` does not draw an identifier twice.
-/

namespace AuthMe.Scim.Routes.Memory

open Service (Entry Call Pool Output Answers Versioned Kept Admits)
open Transition (Run Succeeds)

/-! ## The store -/

/-- The maps of a realm, and the identifiers that have been drawn. -/
structure Store where
  users : Table Uuid (Record .user) Record.id
  groups : Table Uuid (Record .group) Record.id
  issued : List Uuid

/-- What a map has under an identifier. -/
def Store.get? (s : Store) : (k : ResourceType) → Uuid → Option (Record k)
  | .user, id => s.users.get? id
  | .group, id => s.groups.get? id

/-- `users.get(id)` or `groups.get(id)`. -/
def Store.find (s : Store) (k : ResourceType) (id : String) : Option (Record k) :=
  (Uuid.ofText? id).bind (s.get? k)

/-- `users.set(record.id, record)` or `groups.set(record.id, record)`. -/
def Store.put (s : Store) : {k : ResourceType} → Record k → Store
  | .user, record => { s with users := s.users.insert record }
  | .group, record => { s with groups := s.groups.insert record }

/-- The Group without the member; it has a new version if it had the member. -/
def withoutMember (id : Uuid) (group : Record .group) : Record .group :=
  let members := group.attributes.members.filter (· ≠ id.text)
  if members.length ≠ group.attributes.members.length then
    ⟨{ group.attributes with members := members }, group.id, group.version + 1⟩
  else group

theorem id_withoutMember (id : Uuid) (group : Record .group) :
    (withoutMember id group).id = group.id := by
  unfold withoutMember
  dsimp only
  split <;> rfl

/-- What `deleteUser` and `deleteGroup` do to the maps. -/
def Store.remove (s : Store) : ResourceType → Uuid → Store
  | .user, id =>
    { s with
      users := s.users.erase id
      groups := s.groups.update (fun _ => true) (withoutMember id) (id_withoutMember id) }
  | .group, id => { s with groups := s.groups.erase id }

/-! ## Checks -/

/-- `#assertVersion(current, expectedVersion)`. -/
def assertVersion {k : ResourceType} (current : Option (Record k)) (expectedVersion : Nat) :
    Except ScimError (Record k) :=
  match current with
  | none => .error (.repository .notFound "The requested SCIM resource does not exist.")
  | some record =>
    if record.version ≠ expectedVersion then
      .error (.repository .versionMismatch "The SCIM resource changed since it was read.")
    else .ok record

section Checks

variable (lower : LowerCase) (s : Store)

/-- `#assertUserUnique(realm, attributes, excludeId)`. -/
def assertUserUnique (attributes : User) (excludeId : Option Uuid) : Except ScimError Unit :=
  s.users.rows.forM fun user =>
    if some user.id = excludeId then .ok ()
    else if lower user.attributes.userName = lower attributes.userName then
      .error (.repository .uniqueness "userName already exists in this realm.")
    else if attributes.externalId.text?.isSome ∧
        user.attributes.externalId.text? = attributes.externalId.text? then
      .error (.repository .uniqueness "externalId already exists for a User in this realm.")
    else .ok ()

/-- `#assertGroupUnique(realm, attributes, excludeId)`. -/
def assertGroupUnique (attributes : Group) (excludeId : Option Uuid) : Except ScimError Unit :=
  if attributes.externalId.text?.isNone then .ok ()
  else
    s.groups.rows.forM fun group =>
      if some group.id ≠ excludeId ∧
          group.attributes.externalId.text? = attributes.externalId.text? then
        .error (.repository .uniqueness "externalId already exists for a Group in this realm.")
      else .ok ()

/-- `#assertMembers(realm, members)`. -/
def assertMembers (members : List String) : Except ScimError Unit :=
  members.forM fun value =>
    if (s.find .user value).isSome then .ok ()
    else .error (.repository .invalidValue
      ("Group member " ++ value ++ " is not a User in this realm."))

def assertAttributes : (k : ResourceType) → Attributes k → Option Uuid → Except ScimError Unit
  | .user, attributes, excludeId => assertUserUnique lower s attributes excludeId
  | .group, attributes, excludeId => do
    assertGroupUnique s attributes excludeId
    assertMembers s attributes.members

end Checks

/-! ## The methods -/

/-- What `randomUUID` draws, and whether the callback `audit` throws. -/
structure Choice where
  id : Uuid
  auditFails : Bool

section Methods

variable (lower : LowerCase) (s : Store)

/-- `createUser(realm, attributes)` or `createGroup(realm, attributes)`. -/
def create (id : Uuid) {k : ResourceType} (attributes : Attributes k) :
    Except ScimError (Record k × Store) := do
  assertAttributes lower s k attributes none
  let created : Record k := ⟨attributes, id, 1⟩
  return (created, { s.put created with issued := id :: s.issued })

/-- `replaceUser(realm, id, attributes, expectedVersion)` or `replaceGroup`. -/
def replace {k : ResourceType} (id : String) (attributes : Attributes k) (expectedVersion : Nat) :
    Except ScimError (Record k × Store) := do
  let current ← assertVersion (s.find k id) expectedVersion
  assertAttributes lower s k attributes (some current.id)
  let updated : Record k := ⟨attributes, current.id, current.version + 1⟩
  return (updated, s.put updated)

/-- `deleteUser(realm, id, expectedVersion)` or `deleteGroup`. -/
def delete (k : ResourceType) (id : String) (expectedVersion : Nat) :
    Except ScimError (Record k × Store) := do
  let current ← assertVersion (s.find k id) expectedVersion
  return (current, s.remove k current.id)

/-- `listUserGroups(realm, userId)`. -/
def listUserGroups (userId : String) : List Link :=
  (s.groups.rows.filter fun group => group.attributes.members.contains userId).map fun group =>
    ⟨group.id.text, some group.attributes.displayName⟩

/-- The answer of a method, and the store after it. -/
def settle {α : Type} : Except ScimError (α × Store) → Except Failure (Option α) × Store
  | .ok (a, s') => (.ok (some a), s')
  | .error e => (.error (.repository e), s)

def answer (choice : Choice) : (op : Op) → Option (Except Failure op.Answer × Store)
  | .get k id => some (.ok (s.find k id), s)
  | .groupRow _ => none
  | .memberRows _ => none
  | .create _ attributes =>
    if choice.id ∈ s.issued then none else some (settle s (create lower s choice.id attributes))
  | .replace _ id attributes expectedVersion =>
    some (settle s (replace lower s id attributes expectedVersion))
  | .delete k id expectedVersion => some (settle s (delete s k id expectedVersion))
  | .listUserGroups userId => some (.ok (listUserGroups s userId), s)
  | .audit _ _ _ => some (if choice.auditFails then .error .other else .ok (), s)

end Methods

/-- `getUser` and `getGroup` are one operation. -/
def read : Reader := fun k id => ask (.get k id)

/-- The SCIM router over the repository in memory. -/
def service (lower : LowerCase) : Service operations Store Request Reply Choice Empty where
  program := handle lower read
  answer s choice op := answer lower s choice op
  change _ e := nomatch e

/-! ## What the methods do -/

def shown (k : ResourceType) (id : Uuid) (s : Store) : Option (Nat × Attributes k) :=
  (s.get? k id).map fun record => (record.version, record.attributes)

/-- What is there has been drawn. -/
def Valid (s : Store) : Prop := ∀ k id record, s.get? k id = some record → id ∈ s.issued

def Known (id : Uuid) (s : Store) : Prop := id ∈ s.issued

/-- A record is stored as it was written. -/
def Stores (k : ResourceType) (_ : Uuid) (written attributes : Attributes k) : Prop :=
  attributes = written

section

variable {lower : LowerCase} {s s' : Store} {k k' : ResourceType} {id : Uuid}

theorem id_of_get? {record : Record k} (h : s.get? k id = some record) : record.id = id := by
  cases k with
  | user => exact Table.keyOf_of_get? h
  | group => exact Table.keyOf_of_get? h

theorem find_eq_some {text : String} {record : Record k} :
    s.find k text = some record ↔ text = record.id.text ∧ s.get? k record.id = some record := by
  rw [Store.find, Option.bind_eq_some_iff]
  constructor
  · rintro ⟨id, htext, hget⟩
    have hid := id_of_get? hget
    subst hid
    exact ⟨Uuid.ofText?_eq_some.mp htext, hget⟩
  · rintro ⟨htext, hget⟩
    exact ⟨record.id, Uuid.ofText?_eq_some.mpr htext, hget⟩

theorem get?_put (record : Record k) :
    (s.put record).get? k id = if id = record.id then some record else s.get? k id := by
  cases k with
  | user => exact Table.get?_insert _ _ _
  | group => exact Table.get?_insert _ _ _

theorem get?_put_of_ne (record : Record k) (hk : k' ≠ k) :
    (s.put record).get? k' id = s.get? k' id := by
  cases k <;> cases k' <;> first | rfl | exact absurd rfl hk

@[simp] theorem issued_put (record : Record k) : (s.put record).issued = s.issued := by
  cases k <;> rfl

@[simp] theorem issued_remove : (s.remove k id).issued = s.issued := by
  cases k <;> rfl

theorem assertVersion_ok {current : Option (Record k)} {expectedVersion : Nat} {record : Record k}
    (h : assertVersion current expectedVersion = .ok record) :
    current = some record ∧ record.version = expectedVersion := by
  cases current with
  | none => cases h
  | some found =>
    simp only [assertVersion] at h
    split at h
    · cases h
    · rename_i hversion
      cases h
      exact ⟨rfl, not_not.mp hversion⟩

theorem create_ok {attributes : Attributes k} {record : Record k}
    (h : create lower s id attributes = .ok (record, s')) :
    s' = { s.put (⟨attributes, id, 1⟩ : Record k) with issued := id :: s.issued } := by
  obtain ⟨_, -, h⟩ := bind_eq_ok.mp h
  cases h
  rfl

theorem replace_ok {text : String} {attributes : Attributes k} {expectedVersion : Nat}
    {record : Record k}
    (h : replace lower s text attributes expectedVersion = .ok (record, s')) :
    ∃ current : Record k, text = current.id.text ∧ s.get? k current.id = some current ∧
      current.version = expectedVersion ∧
        s' = s.put (⟨attributes, current.id, current.version + 1⟩ : Record k) := by
  obtain ⟨current, hcurrent, h⟩ := bind_eq_ok.mp h
  obtain ⟨_, -, h⟩ := bind_eq_ok.mp h
  cases h
  obtain ⟨hfind, hversion⟩ := assertVersion_ok hcurrent
  obtain ⟨htext, hget⟩ := find_eq_some.mp hfind
  exact ⟨current, htext, hget, hversion, rfl⟩

theorem delete_ok {text : String} {expectedVersion : Nat} {record : Record k}
    (h : delete s k text expectedVersion = .ok (record, s')) :
    ∃ current : Record k, text = current.id.text ∧ s.get? k current.id = some current ∧
      current.version = expectedVersion ∧ s' = s.remove k current.id := by
  obtain ⟨current, hcurrent, h⟩ := bind_eq_ok.mp h
  cases h
  obtain ⟨hfind, hversion⟩ := assertVersion_ok hcurrent
  obtain ⟨htext, hget⟩ := find_eq_some.mp hfind
  exact ⟨record, htext, hget, hversion, rfl⟩

/-! ## What is kept -/

theorem eq_of_text {u v : Uuid} (h : u.text = v.text) : u = v := by
  cases u
  cases v
  cases h
  rfl

theorem shown_put (record : Record k) :
    shown k id (s.put record) =
      if id = record.id then some (record.version, record.attributes) else shown k id s := by
  rw [shown, get?_put]
  split <;> rfl

theorem shown_put_of_ne (record : Record k) (hk : k' ≠ k) :
    shown k' id (s.put record) = shown k' id s := by
  rw [shown, get?_put_of_ne record hk, shown]

theorem valid_put (record : Record k) {issued : List Uuid} (h : Valid s)
    (hissued : ∀ u, u ∈ s.issued → u ∈ issued) (hrecord : record.id ∈ issued) :
    Valid { s.put record with issued := issued } := by
  intro k' u found hfound
  have hget : (s.put record).get? k' u = some found := by
    cases k' <;> exact hfound
  by_cases hk : k' = k
  · subst hk
    rw [get?_put] at hget
    split at hget
    · rename_i hu
      exact hu ▸ hrecord
    · exact hissued u (h k' u found hget)
  · rw [get?_put_of_ne record hk] at hget
    exact hissued u (h k' u found hget)

theorem kept_create {attributes : Attributes k} {record : Record k} (h : Valid s)
    (hnew : id ∉ s.issued) (hcreate : create lower s id attributes = .ok (record, s')) :
    Kept Valid Known (shown k') s s' := by
  rw [create_ok hcreate]
  refine ⟨valid_put _ h (fun u hu => List.mem_cons_of_mem _ hu) List.mem_cons_self,
    fun u hu => List.mem_cons_of_mem _ hu, ?_⟩
  intro u hu
  have hne : u ≠ id := by
    rintro rfl
    exact hnew hu
  have hshown : shown k' u
      { s.put (⟨attributes, id, 1⟩ : Record k) with issued := id :: s.issued } =
        shown k' u (s.put (⟨attributes, id, 1⟩ : Record k)) := by
    cases k' <;> rfl
  rw [hshown]
  by_cases hk : k' = k
  · subst hk
    rw [shown_put, if_neg hne]
    exact .refl _
  · rw [shown_put_of_ne _ hk]
    exact .refl _

theorem kept_replace {attributes : Attributes k} {current : Record k} (h : Valid s)
    (hget : s.get? k current.id = some current) :
    Kept Valid Known (shown k') s
      (s.put (⟨attributes, current.id, current.version + 1⟩ : Record k)) := by
  refine ⟨?_, fun u hu => ?_, ?_⟩
  · have hvalid := valid_put (⟨attributes, current.id, current.version + 1⟩ : Record k) h
      (fun u hu => hu) (h k _ current hget)
    intro k' u found hfound
    rw [issued_put]
    exact hvalid k' u found (by cases k' <;> exact hfound)
  · show u ∈ (s.put _).issued
    rw [issued_put]
    exact hu
  · intro u _
    by_cases hk : k' = k
    · subst hk
      rw [shown_put]
      split
      · rename_i hu
        rw [hu, shown, hget]
        exact .some (Nat.le_succ _) fun heq => absurd heq (Nat.succ_ne_self _).symm
      · exact .refl _
    · rw [shown_put_of_ne _ hk]
      exact .refl _

theorem succeeds_remove (id u : Uuid) :
    Succeeds (shown k' u s) (shown k' u (s.remove k id)) := by
  have herase : ∀ {k'' : ResourceType} (t : Table Uuid (Record k'') Record.id),
      Succeeds ((t.get? u).map fun record => (record.version, record.attributes))
        (((t.erase id).get? u).map fun record => (record.version, record.attributes)) := by
    intro k'' t
    rw [Table.get?_erase]
    split
    · exact .none _
    · exact .refl _
  cases k with
  | user =>
    cases k' with
    | user => exact herase s.users
    | group =>
      show Succeeds ((s.groups.get? u).map _)
        (((s.groups.update (fun _ => true) (withoutMember id) (id_withoutMember id)).get? u).map _)
      rw [Table.get?_update]
      cases hgroup : s.groups.get? u with
      | none => exact .none _
      | some group =>
        simp only [if_true, Option.map_some, withoutMember]
        split
        · exact .some (Nat.le_succ _) fun heq => absurd heq (Nat.succ_ne_self _).symm
        · exact .refl _
  | group =>
    cases k' with
    | user => exact .refl _
    | group => exact herase s.groups

theorem shown_remove (id : Uuid) : shown k id (s.remove k id) = none := by
  cases k with
  | user =>
    show ((s.users.erase id).get? id).map _ = none
    rw [Table.get?_erase, if_pos rfl]
    rfl
  | group =>
    show ((s.groups.erase id).get? id).map _ = none
    rw [Table.get?_erase, if_pos rfl]
    rfl

theorem replace_shown {attributes : Attributes k} {expectedVersion : Nat} {record : Record k}
    (h : replace lower s id.text attributes expectedVersion = .ok (record, s')) :
    (∃ found, shown k id s = some (expectedVersion, found)) ∧
      Leaves shown Stores k id expectedVersion s' (some attributes) := by
  obtain ⟨current, htext, hget, hversion, rfl⟩ := replace_ok h
  have hid : id = current.id := eq_of_text htext
  subst hid
  refine ⟨⟨current.attributes, ?_⟩, attributes, ?_, rfl⟩
  · rw [shown, hget, ← hversion]
    rfl
  · rw [shown_put, if_pos rfl, hversion]

theorem delete_shown {expectedVersion : Nat} {record : Record k}
    (h : delete s k id.text expectedVersion = .ok (record, s')) :
    (∃ found, shown k id s = some (expectedVersion, found)) ∧
      Leaves shown Stores k id expectedVersion s' none := by
  obtain ⟨current, htext, hget, hversion, rfl⟩ := delete_ok h
  have hid : id = current.id := eq_of_text htext
  subst hid
  refine ⟨⟨current.attributes, ?_⟩, shown_remove current.id⟩
  rw [shown, hget, ← hversion]
  rfl

theorem kept_remove (h : Valid s) (id : Uuid) :
    Kept Valid Known (shown k') s (s.remove k id) := by
  refine ⟨?_, fun u hu => ?_, fun u _ => succeeds_remove id u⟩
  · intro k'' u record hget
    rw [issued_remove]
    by_contra hu
    have hnone : shown k'' u s = none := by
      cases hold : s.get? k'' u with
      | none =>
        rw [shown, hold]
        rfl
      | some old => exact absurd (h k'' u old hold) hu
    have hgone := (succeeds_remove (k := k) id u).gone hnone
    rw [shown, hget] at hgone
    cases hgone
  · show u ∈ (s.remove k id).issued
    rw [issued_remove]
    exact hu

theorem settle_ok {α : Type} {x : Except ScimError (α × Store)} {answer : Option α}
    (h : settle s x = (.ok answer, s')) : ∃ a, x = .ok (a, s') := by
  cases x with
  | error e => cases h
  | ok out =>
    obtain ⟨a, t⟩ := out
    cases h
    exact ⟨a, rfl⟩

theorem settle_error {α : Type} {x : Except ScimError (α × Store)} {e : Failure}
    (h : settle s x = (.error e, s')) : s' = s := by
  cases x with
  | error e => exact (Prod.mk.inj h).2.symm
  | ok out => cases h

theorem settle_kept {α : Type} {x : Except ScimError (α × Store)} {res : Except Failure (Option α)}
    (hs : Valid s) (hx : ∀ a t, x = .ok (a, t) → Kept Valid Known (shown k') s t)
    (h : settle s x = (res, s')) : Kept Valid Known (shown k') s s' := by
  cases res with
  | ok answer =>
    obtain ⟨a, hok⟩ := settle_ok h
    exact hx a s' hok
  | error e =>
    rw [settle_error h]
    exact .refl hs

theorem versioned (lower : LowerCase) (k' : ResourceType) :
    Versioned (service lower) (fun _ _ => True) Valid Known (shown k') where
  known := by
    intro id s x hs hx
    obtain ⟨record, hget, -⟩ := Option.map_eq_some_iff.mp hx
    exact hs k' id record hget
  answer := by
    intro s choice op res s' hs h
    cases op with
    | create k attributes =>
      change (if choice.id ∈ s.issued then none else some _) = _ at h
      split at h
      · cases h
      · rename_i hnew
        exact settle_kept hs (fun _ _ hcreate => kept_create hs hnew hcreate)
          (Option.some.inj h)
    | replace k id attributes expectedVersion =>
      refine settle_kept hs ?_ (Option.some.inj h)
      intro record t hreplace
      obtain ⟨current, -, hget, -, rfl⟩ := replace_ok hreplace
      exact kept_replace hs hget
    | delete k id expectedVersion =>
      refine settle_kept hs ?_ (Option.some.inj h)
      intro record t hdelete
      obtain ⟨current, -, -, -, rfl⟩ := delete_ok hdelete
      exact kept_remove hs current.id
    | get _ _ =>
      cases h
      exact .refl hs
    | groupRow _ => cases h
    | memberRows _ => cases h
    | listUserGroups _ =>
      cases h
      exact .refl hs
    | audit _ _ _ =>
      cases h
      exact .refl hs
  change := fun {_ e} => nomatch e

/-- The record is the answer of a `getUser` or `getGroup`. -/
def HasRead (log : List (Entry operations Store)) (k : ResourceType) (record : Record k) : Prop :=
  ∃ id before after, (⟨.get k id, Except.ok (some record), before, after⟩ :
    Entry operations Store) ∈ log

theorem answer_read {op : Op} {choice : Choice} {res : Except Failure op.Answer}
    (hop : op.isWrite = false) (h : answer lower s choice op = some (res, s')) :
    s' = s ∧ ∀ e, res = .error e → e = .other := by
  cases op with
  | get _ _ =>
    cases h
    exact ⟨rfl, fun e he => nomatch he⟩
  | groupRow _ => cases h
  | memberRows _ => cases h
  | listUserGroups _ =>
    cases h
    exact ⟨rfl, fun e he => nomatch he⟩
  | audit _ _ _ =>
    cases h
    refine ⟨rfl, ?_⟩
    intro e he
    split at he
    · cases he
      rfl
    · cases he
  | _ => cases hop

theorem answer_error {op : Op} {choice : Choice} {e : Failure}
    (h : answer lower s choice op = some (.error e, s')) : s' = s := by
  cases op with
  | create _ _ =>
    change (if choice.id ∈ s.issued then none else some _) = _ at h
    split at h
    · cases h
    · exact settle_error (Option.some.inj h)
  | replace _ _ _ _ => exact settle_error (Option.some.inj h)
  | delete _ _ _ => exact settle_error (Option.some.inj h)
  | _ => exact (answer_read rfl h).1

theorem reads (lower : LowerCase) : Reads (Answers (service lower)) read HasRead where
  fails := by
    rintro ⟨op, res, before, after⟩ ⟨choice, hanswer⟩ hop e he
    exact (answer_read hop hanswer).2 e he
  obeys := by
    intro k id P Q log hP hQ
    refine ⟨hP log _ rfl, ?_⟩
    rintro res before after ⟨choice, hanswer⟩
    refine hQ [⟨.get k id, res, before, after⟩] res ?_ ?_
    · intro x hx
      rw [List.mem_singleton.mp hx]
      exact not_changes_of_read rfl
    · change some (Except.ok (before.find k id), before) = some (res, after) at hanswer
      cases hanswer
      intro record hrecord
      refine ⟨id, before, before, ?_⟩
      rw [← hrecord]
      exact List.mem_cons_self

theorem backend (lower : LowerCase) :
    Backend lower (service lower) read (fun _ _ => True) Valid Known shown Stores HasRead where
  program := rfl
  reads := reads lower
  versioned := versioned lower
  recalled := by
    rintro k log current w attributes hlog hpairs ⟨id, before, after, hmem⟩ hw
    obtain ⟨⟨choice, hanswer⟩, hvalid⟩ := hlog _ hmem
    have hkept := (List.pairwise_cons.mp hpairs).1 _ hmem
    change some (Except.ok (before.find k id), before) = some (Except.ok (some current), after)
      at hanswer
    obtain ⟨hfind, rfl⟩ := Prod.mk.inj (Option.some.inj hanswer)
    obtain ⟨-, hget⟩ := find_eq_some.mp (Except.ok.inj hfind)
    have hshown : shown k current.id before = some (current.version, current.attributes) := by
      rw [shown, hget]
      rfl
    have hsucceeds := hkept.succeeds current.id (hvalid k current.id current hget)
    exact ((hsucceeds.later _ _ _ _ hshown hw).2 rfl).symm
  wrote := by
    rintro k id version next x ⟨choice, hanswer⟩ - hwrote
    cases hwrote with
    | replaced =>
      obtain ⟨record, hreplace⟩ := settle_ok (Option.some.inj hanswer)
      exact replace_shown hreplace
    | deleted =>
      obtain ⟨record, hdelete⟩ := settle_ok (Option.some.inj hanswer)
      exact delete_shown hdelete
  unchanged := by
    rintro ⟨op, res, before, after⟩ ⟨choice, hanswer⟩ hchanges
    cases hop : op.isWrite with
    | false => exact (answer_read hop hanswer).1
    | true =>
      cases hres : (res : Except Failure op.Answer) with
      | ok a =>
        refine absurd ⟨hop, ?_⟩ hchanges
        rw [hres]
        rfl
      | error e =>
        rw [hres] at hanswer
        exact answer_error hanswer

end

/-- **No update is lost in memory.** In every run, every request writes only what it makes of the
record that it replaces, and of two writes of a resource the later one replaces a later version. -/
theorem conditional_writes (lower : LowerCase) {s : Store} (hs : Valid s)
    {tr : List (Service.Event Request Choice Empty × Output operations Store)}
    {p : Pool operations Store Request Reply}
    (hrun : Run (Service.step (service lower)) Transition.Always (.initial s) tr p) :
    (∀ n c, p.calls n = some c → Conditional lower shown Stores c) ∧
      ∀ tr₁ n₁ c₁ x₁ tr₂ n₂ c₂ x₂ tr₃, tr = tr₁ ++ (.resume n₁ c₁, .replied n₁ x₁) ::
          (tr₂ ++ (.resume n₂ c₂, .replied n₂ x₂) :: tr₃) →
        ∀ k (id : Uuid) v₁ v₂ next₁ next₂, Wrote k id.text v₁ next₁ x₁ →
          Wrote k id.text v₂ next₂ x₂ → v₁ < v₂ := by
  have hadmitted : Run (Service.step (service lower)) (Admits fun _ _ => True) (.initial s) tr p :=
    hrun.weaken fun p e _ => by
      cases e with
      | change e => exact nomatch e
      | _ => trivial
  refine ⟨fun n c hc => (backend lower).conditional hadmitted hs hc, ?_⟩
  rintro tr₁ n₁ c₁ x₁ tr₂ n₂ c₂ x₂ tr₃ rfl k id v₁ v₂ next₁ next₂ h₁ h₂
  exact (backend lower).raised hs hadmitted h₁ h₂

/-! ### Two replacements -/

def ada : Record .user :=
  ⟨⟨"ada", .missing, fun _ => .missing, true, .missing, none, fun _ => none⟩, someUser.id, 1⟩

def onlyAda : Store := ⟨Table.empty.insert ada, .empty, [someUser.id]⟩

def renamed (name : String) : Request where
  method := .put
  resourceType := .user
  id := someUser.id.text
  ifMatch := none
  ifNoneMatch := none
  body := .object [("userName", .string name)]

theorem valid_onlyAda : Valid onlyAda := by
  intro k id record hget
  cases k with
  | user =>
    have hid := Table.keyOf_of_get? hget
    change (Table.empty.insert ada).get? id = some record at hget
    rw [Table.get?_insert] at hget
    split at hget
    · rename_i heq
      rw [heq]
      exact List.mem_cons_self
    · cases hget
  | group => cases hget

/-- Two clients replace one User whom both have read; the second one is refused. -/
theorem conditional_writes_second : ∃ tr p c,
    Run (Service.step (service .onlyAscii)) Transition.Always (.initial onlyAda) tr p ∧
      p.calls 1 = some c ∧ c.program = .done (.failed 412
        "The SCIM resource changed since it was read." none) ∧
      (∃ x ∈ c.log, x.op.isWrite = true) ∧ ∀ x ∈ c.log, x.after = x.before := by
  have h : Transition.exec (Service.step (service .onlyAscii)) Transition.Always (.initial onlyAda)
      [.start (renamed "ada.l"), .start (renamed "countess"), .resume 0 ⟨someUser.id, false⟩,
        .resume 1 ⟨someUser.id, false⟩, .resume 0 ⟨someUser.id, false⟩,
        .resume 1 ⟨someUser.id, false⟩] = some (_, _) := rfl
  have hrun := Run.of_exec h
  have hlaw := (conditional_writes .onlyAscii valid_onlyAda hrun).1 1 _ rfl
  refine ⟨_, _, _, hrun, rfl, rfl, ⟨_, List.mem_cons_self, rfl⟩, ?_⟩
  exact hlaw.refused 412 _ none rfl (by decide)

end AuthMe.Scim.Routes.Memory

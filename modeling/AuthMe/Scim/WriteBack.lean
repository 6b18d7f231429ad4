import AuthMe.Scim.Columns
import AuthMe.Scim.Versions

/-!
# What a PATCH writes back

PATCH of a User reads the columns together with the attributes that SCIM has saved before, and
computes all columns anew from the outcome. An administrator changes columns and leaves the saved
attributes alone. So the columns that no operation names come back as they were exactly for the rows
on which the columns and the saved attributes agree (`Settled`).
-/

namespace AuthMe.Scim

open Transition
open Passwords (Write checkIfMatch putAttributes)

/-! ## The rows -/

/-- The attributes that the columns are computed from, and the password. -/
def coreAttributes : List UserAttribute :=
  [.userName, .text .displayName, .name, .multi .emails, .multi .roles, .active, .password]

/-- The columns that a PATCH of other attributes should leave alone. -/
structure SameColumns (row row' : UserRow) : Prop where
  username : row'.username = row.username
  email : row'.email = row.email
  emailVerified : row'.emailVerified = row.emailVerified
  displayName : row'.displayName = row.displayName
  givenName : row'.givenName = row.givenName
  familyName : row'.familyName = row.familyName
  roles : row'.roles = row.roles
  enabled : row'.enabled = row.enabled
  passwordHash : row'.passwordHash = row.passwordHash

/-- A part of the name that is in the column has no space around it, and the one that is not there
has not been saved either. -/
def SettledPart (saved : Option String) (column : String) : Prop :=
  if column = "" then Text.trim (saved.getD "") = "" else Text.trim column = column

/-- The e-mail addresses that are shown. -/
def shownEmails (row : UserRow) : List Item :=
  savedItems (row.scim.multi .emails) [valueItem (some true) row.email]

/-- The address of a User without e-mail addresses. -/
def loginAddress (lower : LowerCase) (username : String) (id : Uuid) : String :=
  if '@' ∈ username.toList then lower username else "scim-" ++ id.text ++ "@invalid.local"

/-- The first of the items with this address says that it is verified. -/
def markedVerified (lower : LowerCase) (email : String) (items : List Item) : Bool :=
  (((items.find? fun item => (item.value?.map lower) = some email).bind
    (·.texts.get? "verified")).getD "") ≠ ""

/-- The name of a role. -/
def roleName (role : Item) : String :=
  Text.trim ((role.value? <|> role.texts.get? "display").getD "")

/-- The columns are what the attributes stand for that are shown. -/
structure Settled (lower : LowerCase) (row : UserRow) : Prop where
  username : Text.trim row.username = row.username
  displayName : Text.trim row.displayName = row.displayName ∧ row.displayName ≠ ""
  givenName : SettledPart (row.scim.name.bind (·.get? "givenName")) row.givenName
  familyName : SettledPart (row.scim.name.bind (·.get? "familyName")) row.familyName
  email : orText (lower (primaryValue (some (shownEmails row))))
    (loginAddress lower row.username row.id) = row.email
  emailVerified : markedVerified lower row.email (shownEmails row) = row.emailVerified
  roles : match savedItems (row.scim.multi .roles) [] with
    | [] => (∀ role ∈ row.roles, Text.trim role = role ∧ role ≠ "") ∧ distinct row.roles = row.roles
    | items => row.roles = distinct ((items.map roleName).filter (· ≠ ""))

/-! ### The record of a row -/

section Rows

variable {lower : LowerCase} {row : UserRow}

theorem get?_rowName (row : UserRow) (k : String) :
    (rowName row).get? k =
      if k = "formatted" then some row.displayName
      else if k = "familyName" ∧ row.familyName ≠ "" then some row.familyName
      else if k = "givenName" ∧ row.givenName ≠ "" then some row.givenName
      else row.scim.name.bind (·.get? k) := by
  have hsaved : (row.scim.name.getD .empty).get? k = row.scim.name.bind (·.get? k) := by
    cases row.scim.name <;> rfl
  rw [rowName, OrderedMap.get?_set, get?_setUnlessEmpty, get?_setUnlessEmpty, hsaved]

/-- A part of the name that `coreUser` computes from the record. -/
theorem settledPart_iff {saved : Option String} {column : String} :
    Text.trim ((if column ≠ "" then some column else saved).getD "") = column ↔
      SettledPart saved column := by
  unfold SettledPart
  by_cases hcolumn : column = ""
  · rw [if_neg (not_not.mpr hcolumn), if_pos hcolumn, hcolumn]
  · rw [if_pos hcolumn, if_neg hcolumn]
    rfl

theorem distinct_eq_self {texts : List String} :
    distinct ((texts.map Text.trim).filter (· ≠ "")) = texts ↔
      (∀ t ∈ texts, Text.trim t = t ∧ t ≠ "") ∧ distinct texts = texts := by
  have hkept : (∀ t ∈ texts, Text.trim t = t ∧ t ≠ "") →
      (texts.map Text.trim).filter (· ≠ "") = texts := by
    intro hall
    have hmap : texts.map Text.trim = texts := by
      conv_rhs => rw [← List.map_id texts]
      exact List.map_congr_left fun t ht => (hall t ht).1
    rw [hmap]
    exact List.filter_eq_self.mpr fun t ht => by simpa using (hall t ht).2
  constructor
  · intro h
    have hall : ∀ t ∈ texts, Text.trim t = t ∧ t ≠ "" := by
      intro t ht
      rw [← h, distinct, List.mem_eraseDups, List.mem_filter, List.mem_map] at ht
      obtain ⟨⟨s, -, rfl⟩, hne⟩ := ht
      exact ⟨Text.trim_trim s, by simpa using hne⟩
    exact ⟨hall, by rwa [hkept hall] at h⟩
  · rintro ⟨hall, hdistinct⟩
    rw [hkept hall, hdistinct]

theorem roleName_valueItem (role : String) : roleName (valueItem none role) = Text.trim role := by
  simp [roleName, Item.value?, valueItem, OrderedMap.get?_set]

/-- The condition on the roles. -/
theorem settledRoles_iff (row : UserRow) :
    distinct (((savedItems (row.scim.multi .roles) (row.roles.map (valueItem none))).map
      roleName).filter (· ≠ "")) = row.roles ↔
      match savedItems (row.scim.multi .roles) [] with
      | [] => (∀ role ∈ row.roles, Text.trim role = role ∧ role ≠ "") ∧ distinct row.roles = row.roles
      | items => row.roles = distinct ((items.map roleName).filter (· ≠ "")) := by
  have hcolumn : (row.roles.map (valueItem none)).map roleName = row.roles.map Text.trim := by
    rw [List.map_map]
    exact List.map_congr_left fun role _ => roleName_valueItem role
  cases row.scim.multi .roles with
  | none =>
    simp only [savedItems, hcolumn]
    exact distinct_eq_self
  | some items =>
    cases items with
    | nil =>
      simp only [savedItems, hcolumn]
      exact distinct_eq_self
    | cons item items => exact eq_comm

/-- The record of a row and its user name without the space around it. -/
def trimmed (row : UserRow) : UserRow := { row with username := Text.trim row.username }

theorem sameColumns_replaceUser {core : CoreUser} {passwordHash : String} :
    SameColumns row (Write.apply lower (.replaceUser core passwordHash) row) ↔
      core.username = row.username ∧ core.email = row.email ∧
        core.emailVerified = row.emailVerified ∧ core.displayName = row.displayName ∧
        core.givenName = row.givenName ∧ core.familyName = row.familyName ∧
        core.roles = row.roles ∧ core.enabled = row.enabled ∧ passwordHash = row.passwordHash := by
  constructor
  · intro h
    exact ⟨h.username, h.email, h.emailVerified, h.displayName, h.givenName, h.familyName, h.roles,
      h.enabled, h.passwordHash⟩
  · rintro ⟨h1, h2, h3, h4, h5, h6, h7, h8, h9⟩
    exact ⟨h1, h2, h3, h4, h5, h6, h7, h8, h9⟩

theorem sameColumns_setExternalId {row' : UserRow} {externalId : Option String} :
    SameColumns row (Write.apply lower (.setExternalId externalId) row') ↔ SameColumns row row' := by
  constructor
  · intro h
    exact ⟨h.username, h.email, h.emailVerified, h.displayName, h.givenName, h.familyName, h.roles,
      h.enabled, h.passwordHash⟩
  · intro h
    exact ⟨h.username, h.email, h.emailVerified, h.displayName, h.givenName, h.familyName, h.roles,
      h.enabled, h.passwordHash⟩

/-- The columns do not depend on what is saved beside them. -/
theorem sameColumns_congr {u v : User} (h : SameCore u v) {passwordHash : String} :
    SameColumns row (Write.apply lower (.replaceUser (coreUser lower u row.id) passwordHash) row) ↔
      SameColumns row
        (Write.apply lower (.replaceUser (coreUser lower v row.id) passwordHash) row) := by
  rw [sameColumns_replaceUser, sameColumns_replaceUser, coreUser_congr lower h]

/-- The display name that is computed from the one in the column. -/
theorem settledDisplayName_iff {username : String} (displayName : String)
    (hname : Text.trim username ≠ "") :
    orText (Text.trim displayName) (Text.trim username) = displayName ↔
      Text.trim displayName = displayName ∧ displayName ≠ "" := by
  unfold orText
  split
  · rename_i hblank
    constructor
    · intro heq
      rw [← heq, Text.trim_trim] at hblank
      exact absurd hblank hname
    · rintro ⟨htrim, hne⟩
      exact absurd (htrim.symm.trans hblank) hne
  · rename_i hpresent
    refine ⟨fun heq => ⟨heq, fun hempty => ?_⟩, And.left⟩
    rw [hempty] at hpresent
    exact hpresent rfl

/-- The columns that are computed from the record of a row. -/
theorem coreUser_row (lower : LowerCase) (row : UserRow) :
    coreUser lower (rowAttributes row) row.id =
      { username := row.username
        email := orText (lower (primaryValue (some (shownEmails row))))
          (loginAddress lower row.username row.id)
        emailVerified := markedVerified lower
          (orText (lower (primaryValue (some (shownEmails row))))
            (loginAddress lower row.username row.id)) (shownEmails row)
        displayName := orText (Text.trim row.displayName) row.username
        givenName := Text.trim ((if row.givenName ≠ "" then some row.givenName
          else row.scim.name.bind (·.get? "givenName")).getD "")
        familyName := Text.trim ((if row.familyName ≠ "" then some row.familyName
          else row.scim.name.bind (·.get? "familyName")).getD "")
        enabled := row.enabled
        roles := distinct (((savedItems (row.scim.multi .roles)
          (row.roles.map (valueItem none))).map roleName).filter (· ≠ ""))
        extra := scimAttributes (rowAttributes row) } := by
  have hgiven : (rowName row).get? "givenName" =
      if row.givenName ≠ "" then some row.givenName
      else row.scim.name.bind (·.get? "givenName") := by
    rw [get?_rowName]
    simp
  have hfamily : (rowName row).get? "familyName" =
      if row.familyName ≠ "" then some row.familyName
      else row.scim.name.bind (·.get? "familyName") := by
    rw [get?_rowName]
    simp
  rw [← hgiven, ← hfamily]
  rfl

/-- The columns that are computed from the record of a row are those of the row. -/
theorem coreUser_row_iff (lower : LowerCase) (hname : Text.trim row.username ≠ "")
    (passwordHash : String) :
    SameColumns row (Write.apply lower
        (.replaceUser (coreUser lower (rowAttributes (trimmed row)) row.id) passwordHash) row) ↔
      Settled lower row ∧ passwordHash = row.passwordHash := by
  have hrow := coreUser_row lower (trimmed row)
  rw [show (trimmed row).id = row.id from rfl] at hrow
  rw [sameColumns_replaceUser, hrow]
  simp only [trimmed, settledDisplayName_iff _ hname]
  constructor
  · rintro ⟨husername, hemail, hverified, hdisplay, hgiven, hfamily, hroles, -, hhash⟩
    rw [husername] at hemail hverified
    exact ⟨⟨husername, hdisplay, settledPart_iff.mp hgiven, settledPart_iff.mp hfamily, hemail,
      hemail ▸ hverified, (settledRoles_iff row).mp hroles⟩, hhash⟩
  · rintro ⟨h, hhash⟩
    refine ⟨h.username, ?_, ?_, h.displayName, settledPart_iff.mpr h.givenName,
      settledPart_iff.mpr h.familyName, (settledRoles_iff row).mpr h.roles, trivial, hhash⟩
    · rw [h.username]
      exact h.email
    · rw [h.username]
      exact h.email.symm ▸ h.emailVerified

end Rows

/-! ## The record after a PATCH -/

/-- The operations name none of the attributes that the columns are computed from. -/
def NamesNoCore (lower : LowerCase) (body : Value) : Prop :=
  ∀ c ∈ changes lower (canonicalUserAttribute lower) body, c.path.attr ∉ coreAttributes

section Patch

variable {lower : LowerCase} {row : UserRow} {body : Value}

theorem requiredName_accepts {s t name : String} (h : requiredName (.string s) name = .ok t) :
    t = Text.trim s := by
  rw [requiredName, bind_eq_ok] at h
  obtain ⟨found, hfound, h⟩ := h
  cases h
  unfold text at hfound
  rw [if_neg (by simp)] at hfound
  dsimp only at hfound
  split at hfound
  · cases hfound
  · cases hfound
    rfl

theorem Patched.attribute {α : Type} [DecidableEq α] {isMulti : α → Bool} {cs : List (Change α)}
    {r r' : Resource α} (h : Patched isMulti r cs r') {a : α} (ha : ∀ c ∈ cs, c.path.attr ≠ a) :
    r' a = r a := by
  refine h.invariant (I := fun r' => r' a = r a) ?_ rfl
  intro c hc r₁ r₂ hset hr
  rw [setAttribute_other hset (Ne.symm (ha c hc)), hr]

theorem proper_savedItems {saved : Option (List Item)} {otherwise : List Item}
    (hsaved : ∀ items, saved = some items → GoodItems items)
    (hotherwise : ∀ item ∈ otherwise, item.Proper) :
    ∀ item ∈ savedItems saved otherwise, item.Proper := by
  cases saved with
  | none => exact hotherwise
  | some items =>
    cases items with
    | nil => exact hotherwise
    | cons item items => exact fun i hi => ((hsaved _ rfl).good i hi).proper

theorem rowName_proto (h : row.scim.Written) : (rowName row).get? "__proto__" = none := by
  rw [get?_rowName]
  have hproto := h.name.proto
  cases hname : row.scim.name with
  | none => simp
  | some c =>
    rw [hname] at hproto
    simpa using hproto

/-- Items that the operations do not name. -/
theorem patched_items {r : Resource UserAttribute} {u next : User} {a : MultiAttribute}
    {items : List Item} (hr : ∀ a ∈ coreAttributes, r a = u.toResource a)
    (hmulti : ∀ a, normalizeAttribute r a = .ok (next.multi a)) (ha : .multi a ∈ coreAttributes)
    (hproper : ∀ item ∈ items, item.Proper) (hitems : u.multi a = some items) :
    sameItems ((next.multi a).getD []) ((u.multi a).getD []) = true := by
  have hnext := hmulti a
  rw [normalizeAttribute, hr _ ha] at hnext
  simp only [User.toResource, hitems, Option.map_some] at hnext
  obtain ⟨found, hfound, heq⟩ := map_eq_ok hnext
  rw [← heq, hitems]
  exact normalizeMulti_toValue hproper hfound

/-- What the operations leave of the record of a row, and its normal form. -/
theorem patchUser_ok {out : Option User} (h : patchUser lower (rowAttributes row) body = .ok out) :
    ∃ r next, applyUserPatch lower (rowAttributes row).toResource body = .ok r ∧
      normalizeUserSource r none = .ok next ∧
      out = if next.deepEquals (rowAttributes row) then none else some next := by
  rw [patchUser, bind_eq_ok] at h
  obtain ⟨r, hpatch, h⟩ := h
  rw [bind_eq_ok] at h
  obtain ⟨next, hnext, h⟩ := h
  rw [normalizeUser, canonicalInput_toObject (canonical_user lower) UserAttribute.mem_all,
    bind_eq_ok] at hnext
  obtain ⟨_, hsource, hnext⟩ := hnext
  cases hsource
  rw [missing_text? rfl] at hnext
  exact ⟨r, next, hpatch, hnext, (Except.ok.inj h).symm⟩

/-- An operation on other attributes leaves in the record what the columns are computed from. -/
theorem patchUser_sameCore (hrow : row.scim.Written) (hnames : NamesNoCore lower body) {next : User}
    (h : patchUser lower (rowAttributes row) body = .ok (some next)) :
    Text.trim row.username ≠ "" ∧ next.password = .missing ∧
      SameCore next (rowAttributes (trimmed row)) := by
  obtain ⟨r, next', hpatch, hnext, hout⟩ := patchUser_ok h
  have hsame : next' = next := by
    split at hout
    · cases hout
    · exact (Option.some.inj hout).symm
  subst hsame
  have hr : ∀ a ∈ coreAttributes, r a = (rowAttributes row).toResource a := by
    intro a ha
    exact (patched_of_applyPatch hpatch).attribute fun c hc heq => hnames c hc (heq ▸ ha)
  obtain ⟨huserName, -, htext, hactive, hpassword, hname, hmulti⟩ := normalizeUserSource_ok hnext
  have hgood := requiredName_good huserName
  rw [hr .userName (by decide)] at huserName
  have htrim : next'.userName = Text.trim row.username := requiredName_accepts huserName
  refine ⟨htrim ▸ hgood.present, ?_, htrim, ?_, ?_, ?_, ?_, ?_⟩
  · have hfield : fieldIn r .password 1024 = .ok .missing := by
      rw [fieldIn, hr .password (by decide)]
      rfl
    have hmatch : normalizePassword r none = fieldIn r .password 1024 := by
      unfold normalizePassword
      split
      · rename_i heq
        cases heq
      · rfl
    rw [hmatch, hfield] at hpassword
    exact (Except.ok.inj hpassword).symm
  · have hdisplay := htext .displayName
    rw [fieldIn, hr (.text .displayName) (by decide)] at hdisplay
    obtain ⟨found, hfound, heq⟩ := map_eq_ok hdisplay
    rw [← heq, (text_accepts hfound).1]
    rfl
  · rw [normalizeActive, hr .active (by decide)] at hactive
    exact (Except.ok.inj hactive).symm
  · rw [normalizeName, hr .name (by decide)] at hname
    obtain ⟨c, hfound, heq⟩ := map_eq_ok hname
    rw [← heq]
    exact normalizeComplex_toValue (rowName_proto hrow) hfound
  · show sameItems _ (((rowAttributes row).multi .emails).getD []) = true
    exact patched_items hr hmulti (by decide) (proper_savedItems (fun _ hi => hrow.multi hi)
      fun item hi => List.mem_singleton.mp hi ▸ proper_valueItem _ _) rfl
  · show sameItems _ (((rowAttributes row).multi .roles).getD []) = true
    refine patched_items hr hmulti (by decide) (proper_savedItems (fun _ hi => hrow.multi hi)
      fun item hi => ?_) rfl
    obtain ⟨role, -, rfl⟩ := List.mem_map.mp hi
    exact proper_valueItem _ _

end Patch

theorem patchUser_normal {lower : LowerCase} {row : UserRow} {body : Value} {next : User}
    (h : patchUser lower (rowAttributes row) body = .ok (some next)) : next.Normal := by
  obtain ⟨r, next', -, hnext, hout⟩ := patchUser_ok h
  split at hout
  · cases hout
  · rw [Option.some.inj hout]
    exact normalizeUserSource_normal (by simp) hnext

/-! ## Requests -/

/-- The requests that write the users and the Groups. An identifier that is drawn is in the request,
and so is the hash that `hashPassword` gives for the password of the body. -/
inductive UserRequest
  | createAccount (id : Uuid) (account : Store.User)
  | federate (id : Uuid) (disabledPasswordHash externalSubject : String) (profile : Value)
  | create (id : Uuid) (disabledPasswordHash hash : String) (body : Value)
  | updateUser (id : Uuid) (patch : DataLayer.Patch)
  | mutateAccountSecurity (id : Uuid) (patches : List DataLayer.Patch) (applied : Bool)
  | put (id : String) (ifMatch : List String) (hash : String) (body : Value)
  | patch (id : String) (ifMatch : List String) (hash : String) (body : Value)
  | deleteUser (id : String) (expectedVersion : Nat)
  | group (op : GroupOperation)
  | deleteAccount (id : Uuid)

/-- The row that `createUser` of `src/src/repositories/identity-store.js` inserts. -/
def accountRow (lower : LowerCase) (id : Uuid) (account : Store.User) : UserRow :=
  let user := DataLayer.normalizeUser ⟨lower⟩ account
  { id := id
    username := user.username
    email := user.email
    emailVerified := user.emailVerified
    displayName := user.name
    givenName := user.givenName
    familyName := user.familyName
    enabled := user.enabled
    securityVersion := 0
    passwordHash := user.passwordHash
    roles := user.roles
    groups := user.groups
    scim := .empty
    externalId := none
    version := 1 }

/-- The hash of the password in the attributes; the outer `none` is the policy's refusal. -/
def suppliedHash (hash : String) (attributes : User) : Option (Option String) :=
  match attributes.password.text? with
  | none => some none
  | some password =>
    if 12 ≤ Text.length password ∧ Text.length password ≤ 1024 then some (some hash) else none

/-- `getUser(realm, id)`, as the row. -/
def findRow (s : Store) (id : String) : Option UserRow :=
  (Uuid.parse id).bind s.tables.users.get?

/-- `replaceUser` with what the row has been read as. -/
def writeBack (c : Config) (row : UserRow) (hash : String) (attributes : User) (s : Store) :
    Option Store :=
  (suppliedHash hash attributes).bind fun passwordHash =>
    committed (replaceUser c.lower c.refuses c.realm row.id.text attributes row.version passwordHash) s

/-- The store after the request; `none` if it fails. Whether the login of an upstream identity is
taken is left to the constraints. -/
def UserRequest.perform (c : Config) : UserRequest → Store → Option Store
  | .createAccount id account, s =>
    committed (insertUser c.refuses (accountRow c.lower id account)) s
  | .federate id disabledPasswordHash externalSubject profile, s =>
    (normalizeProfile c.lower externalSubject profile).bind fun profile =>
      committed (withTransaction (insertUser c.refuses
        (federatedRow id disabledPasswordHash profile))) s
  | .create id disabledPasswordHash hash body, s =>
    (normalizeUser c.lower body none).toOption.bind fun attributes =>
      (suppliedHash hash attributes).bind fun passwordHash =>
        committed (createUser c.lower c.refuses id attributes
          (passwordHash.getD disabledPasswordHash)) s
  | .updateUser id change, s => committed (Scim.updateUser c.lower c.refuses id change) s
  | .mutateAccountSecurity id patches applied, s =>
    committed (Scim.mutateAccountSecurity c.lower c.refuses c.realm id patches applied) s
  | .put id ifMatch hash body, s =>
    (findRow s id).bind fun row =>
      (putAttributes c.lower ifMatch body row).bind fun attributes =>
        writeBack c row hash attributes s
  | .patch id ifMatch hash body, s =>
    (findRow s id).bind fun row =>
      if checkIfMatch ifMatch row then
        match patchUser c.lower (rowAttributes row) body with
        | .error _ => none
        | .ok none => some s
        | .ok (some attributes) => writeBack c row hash attributes s
      else none
  | .deleteUser id expectedVersion, s => committed (Scim.deleteUser c.realm id expectedVersion) s
  | .group op, s => committed (op.perform c.db c.realm) s
  | .deleteAccount id, s => committed (Scim.deleteAccount c.realm id) s

def requestStep (c : Config) (s : Store) (e : UserRequest) : Option (Store × Unit) :=
  (e.perform c s).map fun s' => (s', ())

/-- The stores that the requests lead to, from one without users. -/
def Reachable (c : Config) (s : Store) : Prop :=
  ∃ s₀ trace, s₀.tables.users = .empty ∧ Run (requestStep c) Always s₀ trace s

/-- What SCIM has saved beside the columns was normalised. -/
def AllWritten (s : Store) : Prop :=
  ∀ id row, s.tables.users.get? id = some row → row.scim.Written

section Requests

variable {c : Config} {s s' : Store}

theorem toOption_eq_some {α : Type} {x : Except Error α} {a : α} (h : x.toOption = some a) :
    x = .ok a := by
  cases x with
  | error e => cases h
  | ok b =>
    cases h
    rfl

theorem AllWritten.insert (h : AllWritten s) {row : UserRow} (hrow : row.scim.Written)
    {id : Uuid} {found : UserRow} (hfound : (s.tables.users.insert row).get? id = some found) :
    found.scim.Written := by
  rw [Table.get?_insert] at hfound
  split at hfound
  · cases hfound
    exact hrow
  · exact h id found hfound

theorem AllWritten.changed (h : AllWritten s) {id : Uuid} {f : UserRow → UserRow}
    (hchanged : RowChanged id f s.tables s'.tables)
    (hf : ∀ row : UserRow, row.scim.Written → (f row).scim.Written) : AllWritten s' := by
  intro v row hrow
  rw [hchanged.users] at hrow
  split at hrow
  · obtain ⟨old, hold, rfl⟩ := Option.map_eq_some_iff.mp hrow
    exact hf old (h v old hold)
  · exact h v row hrow

theorem AllWritten.of_users (h : AllWritten s) (husers : s'.tables.users = s.tables.users) :
    AllWritten s' := by
  intro v row hrow
  rw [husers] at hrow
  exact h v row hrow

theorem AllWritten.erase (h : AllWritten s) {id : Uuid}
    (husers : s'.tables.users = s.tables.users.erase id) : AllWritten s' := by
  intro v row hrow
  rw [husers, Table.get?_erase] at hrow
  split at hrow
  · cases hrow
  · exact h v row hrow

/-- The synchronisation leaves what SCIM has saved. -/
theorem AllWritten.synced (h : AllWritten s) {userIds : List Uuid}
    (hsynced : Synced c.db c.realm userIds s s') : AllWritten s' := by
  intro v row hrow
  by_cases hout : Outdated c.db s.tables userIds v
  · obtain ⟨-, old, hold, -⟩ := id hout
    cases (hsynced.outdated v old hold hout).symm.trans hrow
    exact h v old hold
  · rw [hsynced.current v hout] at hrow
    exact h v row hrow

theorem scim_patched (lower : LowerCase) (patches : List DataLayer.Patch) (row : UserRow) :
    (patched lower patches row).scim = row.scim := by
  induction patches generalizing row with
  | nil => rfl
  | cons patch patches ih => exact ih _

theorem AllWritten.writeBack (h : AllWritten s) {row : UserRow} {hash : String} {attributes : User}
    (hattributes : attributes.Normal) (hwrite : writeBack c row hash attributes s = some s') :
    AllWritten s' := by
  obtain ⟨passwordHash, -, hcommit⟩ := Option.bind_eq_some_iff.mp hwrite
  obtain ⟨answer, hexec⟩ := committed_eq_some hcommit
  obtain ⟨found, -, -, -, hchanged⟩ := replaceUser_ok hexec
  exact h.changed hchanged fun _ _ => .inr ⟨attributes, hattributes, rfl⟩

theorem AllWritten.perform (h : AllWritten s) {e : UserRequest} (hstep : e.perform c s = some s') :
    AllWritten s' := by
  cases e with
  | createAccount id account =>
    obtain ⟨_, hexec⟩ := committed_eq_some hstep
    obtain ⟨-, rfl⟩ := insertUser_ok hexec
    exact fun v row hrow => h.insert (.inl rfl) hrow
  | federate id disabledPasswordHash externalSubject profile =>
    obtain ⟨_, -, hcommit⟩ := Option.bind_eq_some_iff.mp hstep
    obtain ⟨_, hexec⟩ := committed_eq_some hcommit
    obtain ⟨-, rfl⟩ := insertUser_ok (Transaction.atomically_ok.mp hexec)
    exact fun v row hrow => h.insert (.inl rfl) hrow
  | create id disabledPasswordHash hash body =>
    obtain ⟨attributes, hattributes, hrest⟩ := Option.bind_eq_some_iff.mp hstep
    obtain ⟨_, -, hcommit⟩ := Option.bind_eq_some_iff.mp hrest
    obtain ⟨_, hexec⟩ := committed_eq_some hcommit
    obtain ⟨-, hchanged⟩ := createUser_changed hexec
    have hnormal : attributes.Normal :=
      normalizeUser_normal (by simp) (toOption_eq_some hattributes)
    intro v row hrow
    rw [hchanged.users] at hrow
    split at hrow
    · obtain ⟨old, hold, rfl⟩ := Option.map_eq_some_iff.mp hrow
      show old.scim.Written
      exact h.insert (.inr ⟨attributes, hnormal, rfl⟩) hold
    · exact h.insert (.inr ⟨attributes, hnormal, rfl⟩) hrow
  | updateUser id change =>
    obtain ⟨_, hexec⟩ := committed_eq_some hstep
    have hchanged := (updateRow_ok (Transaction.atomically_ok.mp hexec)).2
    exact h.changed hchanged fun _ hrow => hrow
  | mutateAccountSecurity id patches applied =>
    obtain ⟨_, hexec⟩ := committed_eq_some hstep
    have hpatched : ∀ row : UserRow, row.scim.Written →
        (patched c.lower patches row).scim.Written := by
      intro row hrow
      rw [scim_patched]
      exact hrow
    rcases mutateAccountSecurity_ok hexec with hsame | hchanged | hchanged
    · exact h.of_users (congrArg Tables.users hsame)
    · exact h.changed hchanged hpatched
    · exact h.changed hchanged hpatched
  | put id ifMatch hash body =>
    obtain ⟨row, -, hrest⟩ := Option.bind_eq_some_iff.mp hstep
    obtain ⟨attributes, hattributes, hwrite⟩ := Option.bind_eq_some_iff.mp hrest
    unfold putAttributes at hattributes
    split at hattributes
    · exact h.writeBack (normalizeUser_normal (by simp) (toOption_eq_some hattributes))
        hwrite
    · cases hattributes
  | patch id ifMatch hash body =>
    obtain ⟨row, -, hrest⟩ := Option.bind_eq_some_iff.mp hstep
    split at hrest
    · split at hrest
      · cases hrest
      · cases hrest
        exact h
      · rename_i attributes hpatch
        exact h.writeBack (patchUser_normal hpatch) hrest
    · cases hrest
  | deleteUser id expectedVersion =>
    obtain ⟨_, hexec⟩ := committed_eq_some hstep
    obtain ⟨_, -, -, -, htables⟩ := deleteUser_ok hexec
    exact h.erase (congrArg Tables.users htables)
  | group op =>
    obtain ⟨_, hexec⟩ := committed_eq_some hstep
    obtain ⟨t, _, -, husers, hsynced⟩ := perform_ok hexec
    exact (h.of_users husers).synced hsynced
  | deleteAccount id =>
    obtain ⟨_, hexec⟩ := committed_eq_some hstep
    rcases deleteAccount_ok hexec with hsame | htables
    · exact h.of_users (congrArg Tables.users hsame)
    · exact h.erase (congrArg Tables.users htables)

theorem Reachable.allWritten (h : Reachable c s) : AllWritten s := by
  obtain ⟨s₀, trace, hempty, hrun⟩ := h
  refine hrun.invariant ?_ ?_
  · intro t e t' o ht _ hstep
    obtain ⟨t'', hperform, heq⟩ := Option.map_eq_some_iff.mp hstep
    cases heq
    exact ht.perform hperform
  · intro id row hrow
    rw [hempty] at hrow
    cases hrow

/-- The row after a PATCH that is written. -/
theorem writeBack_row {row : UserRow} (hrow : s.tables.users.get? row.id = some row) {hash : String}
    {attributes : User} (hwrite : writeBack c row hash attributes s = some s') :
    ∃ passwordHash, suppliedHash hash attributes = some passwordHash ∧
      s'.tables.users.get? row.id = some (Write.apply c.lower
        (.setExternalId attributes.externalId.text?) (Write.apply c.lower (.replaceUser
          (coreUser c.lower attributes row.id) (passwordHash.getD row.passwordHash)) row)) := by
  obtain ⟨passwordHash, hhash, hcommit⟩ := Option.bind_eq_some_iff.mp hwrite
  obtain ⟨_, hexec⟩ := committed_eq_some hcommit
  obtain ⟨found, hid, hfound, -, hchanged⟩ := replaceUser_ok hexec
  rw [Uuid.parse_text] at hid
  have heq : found.id = row.id := (Option.some.inj hid).symm
  rw [heq, hrow] at hfound
  cases hfound
  refine ⟨passwordHash, hhash, ?_⟩
  rw [hchanged.users, if_pos rfl, hrow]
  rfl

end Requests

/-- **Write-back.** A PATCH that names none of the attributes behind the columns leaves the columns
as they were, if and only if it writes nothing or the columns agree with the attributes that SCIM has
saved. -/
theorem patch_write_back (c : Config) {s s' : Store} (hs : Reachable c s) {id : String}
    {row : UserRow} (hrow : findRow s id = some row) {ifMatch : List String} {hash : String}
    {body : Value} (hnames : NamesNoCore c.lower body)
    (hpatch : (UserRequest.patch id ifMatch hash body).perform c s = some s') :
    (∃ row', findRow s' id = some row' ∧ SameColumns row row') ↔
      patchUser c.lower (rowAttributes row) body = .ok none ∨ Settled c.lower row := by
  obtain ⟨u, hu, hget⟩ := Option.bind_eq_some_iff.mp hrow
  have hid : row.id = u := Table.keyOf_of_get? hget
  subst hid
  have hfind : ∀ t : Store, findRow t id = t.tables.users.get? row.id := by
    intro t
    rw [findRow, hu]
    rfl
  have hwritten := hs.allWritten row.id row hget
  obtain ⟨found, hfound, hrest⟩ := Option.bind_eq_some_iff.mp hpatch
  cases hfound.symm.trans hrow
  split at hrest
  · split at hrest
    · cases hrest
    · rename_i hnone
      cases hrest
      exact ⟨fun _ => .inl hnone, fun _ => ⟨row, hrow, ⟨rfl, rfl, rfl, rfl, rfl, rfl, rfl, rfl, rfl⟩⟩⟩
    · rename_i attributes hsome
      obtain ⟨hname, hpassword, hcore⟩ := patchUser_sameCore hwritten hnames hsome
      obtain ⟨passwordHash, hhash, hafter⟩ := writeBack_row hget hrest
      have hnoHash : passwordHash = none := by
        rw [suppliedHash, hpassword] at hhash
        cases hhash
        rfl
      have hcolumns := coreUser_row_iff c.lower hname row.passwordHash
      rw [and_iff_left rfl, ← sameColumns_congr hcore] at hcolumns
      rw [hfind, hafter, hnoHash]
      constructor
      · rintro ⟨row', hrow', hsame⟩
        cases hrow'
        exact .inr (hcolumns.mp (sameColumns_setExternalId.mp hsame))
      · rintro (hnone | hsettled)
        · rw [hsome] at hnone
          cases hnone
        · exact ⟨_, rfl, sameColumns_setExternalId.mpr (hcolumns.mpr hsettled)⟩
  · cases hrest

/-! ### An account of the administration -/

def verifiedAccount : Store.User :=
  { realm := "main", id := "", username := "ada", email := "ada@example.test", emailVerified := true }

def emptyStore : Store := ⟨⟨.empty, .empty, []⟩, .empty⟩

def newNickName : Value := oneOperation "replace" "nickName" (.string "Countess")

theorem namesNoCore_newNickName : NamesNoCore .onlyAscii newNickName := by
  intro c hc
  have hchanges : changes .onlyAscii (canonicalUserAttribute .onlyAscii) newNickName =
      [⟨⟨.text .nickName, none, none⟩, .replace, .string "Countess"⟩] := rfl
  rw [hchanges] at hc
  rw [List.mem_singleton.mp hc]
  decide

/-- The address was verified when the account was created, and it is not any more after the first
PATCH of something else. -/
theorem patch_write_back_verified :
    ∃ s s' row, Reachable someConfig s ∧ findRow s someUser.id.text = some row ∧
      row.emailVerified = true ∧
      (UserRequest.patch someUser.id.text [] "" newNickName).perform someConfig s = some s' ∧
      ¬ ∃ row', findRow s' someUser.id.text = some row' ∧ SameColumns row row' := by
  obtain ⟨s, s', row, next, hcreate, hrow, hverified, hnext, hpatch⟩ :
      ∃ s s' row next,
        requestStep someConfig emptyStore (.createAccount someUser.id verifiedAccount) =
          some (s, ()) ∧
        findRow s someUser.id.text = some row ∧
        row = accountRow .onlyAscii someUser.id verifiedAccount ∧
        patchUser .onlyAscii (rowAttributes row) newNickName = .ok (some next) ∧
        (UserRequest.patch someUser.id.text [] "" newNickName).perform someConfig s = some s' :=
    ⟨_, _, _, _, rfl, rfl, rfl, rfl, rfl⟩
  have hreachable : Reachable someConfig s := ⟨emptyStore, _, rfl, .single trivial hcreate⟩
  refine ⟨s, s', row, hreachable, hrow, by rw [hverified]; rfl, hpatch, ?_⟩
  rw [patch_write_back someConfig hreachable hrow namesNoCore_newNickName hpatch]
  rintro (hnone | hsettled)
  · rw [show someConfig.lower = .onlyAscii from rfl, hnext] at hnone
    cases hnone
  · have hmarked := hsettled.emailVerified
    rw [hverified] at hmarked
    revert hmarked
    decide

end AuthMe.Scim

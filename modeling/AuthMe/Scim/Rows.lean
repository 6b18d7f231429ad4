import Mathlib.Data.List.Sort
import Mathlib.Data.String.Basic
import AuthMe.Collections.Table
import AuthMe.Scim.Attributes

/-!
# Users and Groups in PostgreSQL

The rows of one realm that `src/src/repositories/scim-repository.js` works on (the tables are in
`src/migrations/001_initial.sql` and `003_scim.sql`), and the two ways between a row and the
attributes of a resource: `coreUser` writes, `rowToUser` and `rowToGroup` read.

A row of `users` stands with its row of `scim_user_resources`, which a trigger inserts with it.
-/

namespace AuthMe.Scim

/-! ## Rows -/

/-- The member `scim` of the column `attributes`: what `scimAttributes` leaves of the attributes. -/
structure Saved where
  text : TextAttribute → Option String
  name : Option Complex
  multi : MultiAttribute → Option (List Item)

/-- There is no such member. -/
def Saved.empty : Saved := ⟨fun _ => none, none, fun _ => none⟩

structure UserRow where
  id : Uuid
  username : String
  email : String
  emailVerified : Bool
  displayName : String
  givenName : String
  familyName : String
  enabled : Bool
  securityVersion : Nat
  passwordHash : String
  roles : List String
  groups : List String
  scim : Saved
  externalId : Option String
  version : Nat

structure GroupRow where
  id : Uuid
  externalId : Option String
  displayName : String
  version : Nat
  deriving DecidableEq

/-- A row of `scim_group_members`. -/
structure Membership where
  groupId : Uuid
  userId : Uuid
  deriving DecidableEq

theorem isAscii_text (u : Uuid) : Text.isAscii u.text = true := by
  simp only [Text.isAscii, List.all_eq_true, decide_eq_true_eq]
  intro c hc
  rcases Uuid.isHex_or_dash_text u c hc with h | rfl
  · simp only [isHex, Bool.or_eq_true, Bool.and_eq_true, decide_eq_true_eq] at h
    rcases h with ⟨-, h⟩ | ⟨-, h⟩
    · have h1 : c.toNat ≤ 57 := h
      omega
    · have h1 : c.toNat ≤ 102 := h
      omega
  · decide

/-- What PostgreSQL does with texts: `lower` and the order of the collation. -/
structure Database where
  lower : String → String
  lower_ascii : ∀ s, Text.isAscii s = true → lower s = lowerKey s
  precedes : String → String → Bool

/-- The tables of a realm. -/
structure Tables where
  users : Table Uuid UserRow UserRow.id
  groups : Table Uuid GroupRow GroupRow.id
  members : List Membership

/-- `btrim(text)`. -/
def btrim (s : String) : String :=
  String.ofList (((s.toList.dropWhile (· == ' ')).reverse.dropWhile (· == ' ')).reverse)

/-- The constraints of `scim_groups` and `scim_group_members`. -/
structure Tables.Constraints (db : Database) (t : Tables) : Prop where
  displayNamePresent : ∀ g ∈ t.groups.rows,
    1 ≤ (btrim g.displayName).toList.length ∧ (btrim g.displayName).toList.length ≤ 256
  displayNameUnique : ∀ g ∈ t.groups.rows, ∀ h ∈ t.groups.rows,
    db.lower g.displayName = db.lower h.displayName → g = h
  externalIdUnique : ∀ g ∈ t.groups.rows, ∀ h ∈ t.groups.rows,
    g.externalId.isSome → g.externalId = h.externalId → g = h
  groupExists : ∀ m ∈ t.members, (t.groups.get? m.groupId).isSome
  userExists : ∀ m ∈ t.members, (t.users.get? m.userId).isSome
  primaryKey : t.members.Nodup

/-! ## Writing a User -/

/-- `scimAttributes(attributes)`, as JSON: a member that is `undefined` is left out. -/
def scimAttributes (user : User) : Saved where
  text a := (user.text a).text?
  name := user.name
  multi := user.multi

/-- `item.value`, which is no text if it is missing. -/
def Item.value? (item : Item) : Option String := item.texts.get? "value"

/-- `primaryValue(values)`. -/
def primaryValue (values : Option (List Item)) : String :=
  let values := values.getD []
  let primary := (values.find? fun item => item.primary = some true && item.value?.isSome).bind Item.value?
  let first := (values.find? fun item => item.value?.isSome).bind Item.value?
  Text.trim ((primary <|> first).getD "")

/-- `[...new Set(texts)]`. -/
def distinct (texts : List String) : List String := texts.eraseDups

/-- The columns that `coreUser` computes. -/
structure CoreUser where
  username : String
  email : String
  emailVerified : Bool
  displayName : String
  givenName : String
  familyName : String
  enabled : Bool
  roles : List String
  extra : Saved

/-- `first || second`. -/
def orText (first second : String) : String := if first = "" then second else first

/-- `coreUser(attributes, id)`. -/
def coreUser (lower : LowerCase) (user : User) (id : Uuid) : CoreUser :=
  let namePart (key : String) := user.name.bind (·.get? key)
  let givenName := Text.trim ((namePart "givenName").getD "")
  let familyName := Text.trim ((namePart "familyName").getD "")
  let joined := String.intercalate " " ([givenName, familyName].filter (· ≠ ""))
  let displayName := orText
    (Text.trim (((user.text .displayName).text? <|> namePart "formatted").getD joined)) user.userName
  let email := orText (lower (primaryValue (user.multi .emails)))
    (if '@' ∈ user.userName.toList then lower user.userName
      else "scim-" ++ id.text ++ "@invalid.local")
  let verified := ((user.multi .emails).getD []).find? fun item => (item.value?.map lower) = some email
  { username := user.userName
    email := email
    -- `Boolean` of a text is false for the empty one only
    emailVerified := ((verified.bind (·.texts.get? "verified")).getD "") ≠ ""
    displayName := displayName
    givenName := givenName
    familyName := familyName
    enabled := user.active
    roles := distinct ((((user.multi .roles).getD []).map fun role =>
      Text.trim ((role.value? <|> role.texts.get? "display").getD "")).filter (· ≠ ""))
    extra := scimAttributes user }

/-! ## Reading -/

/-- What a repository hands out: attributes, identifier and version. -/
structure UserRecord where
  attributes : User
  id : Uuid
  version : Nat

structure GroupRecord where
  attributes : Group
  id : Uuid
  version : Nat
  deriving DecidableEq

/-- The member `externalId` of a record. -/
def externalIdField : Option String → Field
  | none => .missing
  | some s => .value s

/-- `{ ...name, givenName, familyName, formatted }`. -/
def rowName (row : UserRow) : Complex :=
  let setUnlessEmpty (key value : String) (c : Complex) := if value = "" then c else c.set key value
  ((setUnlessEmpty "familyName" row.familyName
    (setUnlessEmpty "givenName" row.givenName (row.scim.name.getD .empty))).set
      "formatted" row.displayName)

def valueItem (primary : Option Bool) (value : String) : Item :=
  ⟨primary, OrderedMap.empty.set "value" value⟩

/-- The saved items, unless there are none. -/
def savedItems (saved : Option (List Item)) (otherwise : List Item) : List Item :=
  match saved with
  | none | some [] => otherwise
  | some items => items

def rowAttributes (row : UserRow) : User where
  userName := row.username
  externalId := externalIdField row.externalId
  text
    | .displayName => .value row.displayName
    | a => externalIdField (row.scim.text a)
  active := row.enabled
  password := .missing
  name := some (rowName row)
  multi
    | .emails => some (savedItems (row.scim.multi .emails) [valueItem (some true) row.email])
    | .roles => some (savedItems (row.scim.multi .roles) (row.roles.map (valueItem none)))
    | a => row.scim.multi a

def rowToUser (row : UserRow) : UserRecord := ⟨rowAttributes row, row.id, row.version⟩

/-- `SELECT user_id::text FROM scim_group_members ... ORDER BY user_id`. -/
def membersOf (t : Tables) (groupId : Uuid) : List Uuid :=
  ((t.members.filter fun m => m.groupId = groupId).map Membership.userId).insertionSort
    fun a b => a.text.toList ≤ b.text.toList

def rowToGroup (t : Tables) (row : GroupRow) : GroupRecord where
  attributes :=
    { displayName := row.displayName
      externalId := externalIdField row.externalId
      members := (membersOf t row.id).map Uuid.text }
  id := row.id
  version := row.version

end AuthMe.Scim

import AuthMe.Scim.Rows
import AuthMe.Scim.Filter

/-!
# Lists of Users and Groups

`matches` and `page` of `src/src/scim/memory-repository.js` against `filterSql`, `listUsers` and
`listGroups` of `src/src/repositories/scim-repository.js`: one page of the resources that a filter
selects, in the order of their identifiers, and how many there are.

A parameter of a statement is encoded as UTF-8, and PostgreSQL refuses the character U+0000.
-/

namespace AuthMe.Scim

/-- What a list answers: the number of all selected resources, and those of the page. -/
structure Listing where
  totalResults : Nat
  resources : List Uuid
  deriving DecidableEq

/-- The order of the identifiers: `localeCompare` on lower-case texts of UUIDs, and `ORDER BY id`. -/
def byId (a b : Uuid) : Prop := a.text.toList ≤ b.text.toList

instance (a b : Uuid) : Decidable (byId a b) :=
  inferInstanceAs (Decidable (a.text.toList ≤ b.text.toList))

/-! ## In memory -/

/-- The members of a record that a filter reads. -/
structure Listed where
  id : Uuid
  userName : Option String
  displayName : Option String
  externalId : Option String
  active : Option Bool
  members : List String

def UserRecord.listed (r : UserRecord) : Listed :=
  ⟨r.id, some r.attributes.userName, (r.attributes.text .displayName).text?,
    r.attributes.externalId.text?, some r.attributes.active, []⟩

def GroupRecord.listed (r : GroupRecord) : Listed :=
  ⟨r.id, none, some r.attributes.displayName, r.attributes.externalId.text?, none,
    r.attributes.members⟩

section Memory

variable (lower : LowerUnits)

/-- `matches(resource, filter)`. -/
def matchesFilter (r : Listed) : Option Filter → Bool
  | none => true
  | some f =>
    match f.attr with
    | .membersValue => r.members.any fun value => Text.units value = f.value
    | .active => (r.active == some true) == decide (lower f.value = Text.units "true")
    | .userName => lower (Text.units (r.userName.getD "")) = lower f.value
    | .displayName => lower (Text.units (r.displayName.getD "")) = lower f.value
    | .id => Text.units r.id.text = f.value
    | .externalId => Text.units (r.externalId.getD "") = f.value

/-- `page(resources, { filter, startIndex, count })`. -/
def page (resources : List Listed) (filter : Option Filter) (p : Page) : Listing :=
  let selected := (resources.filter fun r => matchesFilter lower r filter).insertionSort
    fun a b => byId a.id b.id
  ⟨selected.length, ((selected.drop (p.startIndex - 1)).take p.count).map Listed.id⟩

end Memory

/-! ## In PostgreSQL -/

/-- The columns that a filter compares; a column can be `NULL`. -/
abbrev Columns (ρ : Type) := FilterAttribute → Option (ρ → Option String)

def userColumns (db : Database) : Columns UserRow
  | .id => some fun row => some row.id.text
  | .userName => some fun row => some (db.lower row.username)
  | .externalId => some fun row => row.externalId
  | .active => some fun row => some (if row.enabled then "true" else "false")
  | .displayName | .membersValue => none

def groupColumns (db : Database) : Columns GroupRow
  | .id => some fun row => some row.id.text
  | .displayName => some fun row => some (db.lower row.displayName)
  | .externalId => some fun row => row.externalId
  | .userName | .active | .membersValue => none

def FilterAttribute.insensitive : FilterAttribute → Bool
  | .userName | .displayName => true
  | _ => false

/-- The value of a filter that is sent to the server. -/
def Filter.parameter (lower : LowerUnits) (f : Filter) : List Nat :=
  if f.attr.insensitive then lower f.value else f.value

/-- A parameter of type `text`. -/
def textParameter (units : List Nat) : Except String String :=
  if 0 ∈ units then .error "invalid byte sequence for encoding \"UTF8\": 0x00"
  else .ok (Text.wellFormed units)

/-- `filterSql(filter, resourceType)`, as the test of a row. -/
def filterSql {ρ : Type} (lower : LowerUnits) (columns : Columns ρ) (filter : Option Filter) :
    Except String (ρ → Bool) :=
  match filter with
  | none => .ok fun _ => true
  | some f =>
    match columns f.attr with
    | none => .ok fun _ => true
    | some column => (textParameter (f.parameter lower)).map fun text row => column row = some text

/-- `LIMIT` and `OFFSET`, and the total: that of the window function if there is a row, and of a
second query if there is none. -/
def limited {ρ : Type} (idOf : ρ → Uuid) (selected : List ρ) (window count : Nat) (p : Page) :
    Listing :=
  let result := ((selected.insertionSort fun a b => byId (idOf a) (idOf b)).drop
    (p.startIndex - 1)).take p.count
  ⟨if result.isEmpty then count else window, result.map idOf⟩

def listUsers (lower : LowerUnits) (db : Database) (t : Tables) (filter : Option Filter) (p : Page) :
    Except String Listing := do
  let test ← filterSql lower (userColumns db) filter
  let selected := t.users.rows.filter test
  return limited UserRow.id selected selected.length selected.length p

/-- The rows of the join of `listGroups`. -/
def joinMembers (t : Tables) (text : String) : List GroupRow :=
  t.groups.rows.flatMap fun g =>
    (t.members.filter fun m => m.groupId = g.id && m.userId.text = text).map fun _ => g

def listGroups (lower : LowerUnits) (db : Database) (t : Tables) (filter : Option Filter)
    (p : Page) : Except String Listing := do
  let joined ← match filter with
    | some ⟨.membersValue, value⟩ => (textParameter value).map (joinMembers t)
    | _ => (filterSql lower (groupColumns db) filter).map fun test => t.groups.rows.filter test
  return limited GroupRow.id joined.eraseDups joined.length
    (joined.map GroupRow.id).eraseDups.length p

end AuthMe.Scim

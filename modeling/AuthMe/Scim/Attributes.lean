import AuthMe.Scim.Value

/-!
# Attributes of Users and Groups

`src/src/scim/attributes.js`: which attributes there are, and `normalizeUser` and
`normalizeGroup`, which check a resource that a client has sent and bring it into the form that
the repositories store.

`User` and `Group` are the normalised forms. A member of a `User` that JavaScript would leave
`undefined` although its key is there is `Field.undefined`.
-/

namespace AuthMe.Scim

/-- `ScimError`, and the `TypeError` of an operation that a value does not have. -/
inductive Error
  | scim (status : Nat) (detail : String) (scimType : Option String)
  | typeError
  deriving DecidableEq

def invalidValue (detail : String) : Error := .scim 400 detail (some "invalidValue")

def SCIM_URNS.user : String := "urn:ietf:params:scim:schemas:core:2.0:User"

def SCIM_URNS.group : String := "urn:ietf:params:scim:schemas:core:2.0:Group"

def SCIM_URNS.patchOp : String := "urn:ietf:params:scim:api:messages:2.0:PatchOp"

/-! ## The attributes -/

/-- The attributes of a User that are an optional text. -/
inductive TextAttribute
  | displayName | nickName | profileUrl | title | userType | preferredLanguage | locale | timezone
  deriving DecidableEq

/-- The multi-valued attributes of a User. -/
inductive MultiAttribute
  | emails | phoneNumbers | ims | photos | addresses | entitlements | roles | x509Certificates
  deriving DecidableEq

inductive UserAttribute
  | userName | externalId | active | password | name
  | text (a : TextAttribute)
  | multi (a : MultiAttribute)
  deriving DecidableEq

inductive GroupAttribute
  | externalId | displayName | members
  deriving DecidableEq

def TextAttribute.all : List TextAttribute :=
  [.displayName, .nickName, .profileUrl, .title, .userType, .preferredLanguage, .locale, .timezone]

def MultiAttribute.all : List MultiAttribute :=
  [.emails, .phoneNumbers, .ims, .photos, .addresses, .entitlements, .roles, .x509Certificates]

def UserAttribute.all : List UserAttribute :=
  [.userName, .externalId, .active, .password, .name] ++ TextAttribute.all.map .text ++
    MultiAttribute.all.map .multi

def GroupAttribute.all : List GroupAttribute := [.externalId, .displayName, .members]

theorem TextAttribute.mem_all (a : TextAttribute) : a ∈ all := by cases a <;> decide

theorem MultiAttribute.mem_all (a : MultiAttribute) : a ∈ all := by cases a <;> decide

theorem UserAttribute.mem_all (a : UserAttribute) : a ∈ all := by
  cases a with
  | text a => exact List.mem_append_left _ (List.mem_append_right _
      (List.mem_map_of_mem a.mem_all))
  | multi a => exact List.mem_append_right _ (List.mem_map_of_mem a.mem_all)
  | _ => decide

theorem GroupAttribute.mem_all (a : GroupAttribute) : a ∈ all := by cases a <;> decide

def TextAttribute.key : TextAttribute → String
  | .displayName => "displayName"
  | .nickName => "nickName"
  | .profileUrl => "profileUrl"
  | .title => "title"
  | .userType => "userType"
  | .preferredLanguage => "preferredLanguage"
  | .locale => "locale"
  | .timezone => "timezone"

def MultiAttribute.key : MultiAttribute → String
  | .emails => "emails"
  | .phoneNumbers => "phoneNumbers"
  | .ims => "ims"
  | .photos => "photos"
  | .addresses => "addresses"
  | .entitlements => "entitlements"
  | .roles => "roles"
  | .x509Certificates => "x509Certificates"

/-- The values of the map `userNames`. -/
def UserAttribute.key : UserAttribute → String
  | .userName => "userName"
  | .externalId => "externalId"
  | .active => "active"
  | .password => "password"
  | .name => "name"
  | .text a => a.key
  | .multi a => a.key

/-- The values of the map `groupNames`. -/
def GroupAttribute.key : GroupAttribute → String
  | .externalId => "externalId"
  | .displayName => "displayName"
  | .members => "members"

/-- The keys of the maps `userNames` and `groupNames` are their values in lower case. -/
def lowerKey (key : String) : String := String.ofList (key.toList.map asciiLower)

/-- `userNames.get(lower)`. -/
def userNames (lower : String) : Option UserAttribute :=
  UserAttribute.all.find? fun a => lowerKey a.key = lower

/-- `groupNames.get(lower)`. -/
def groupNames (lower : String) : Option GroupAttribute :=
  GroupAttribute.all.find? fun a => lowerKey a.key = lower

section Names

variable (lower : LowerCase)

def canonicalUserAttribute (name : String) : Option UserAttribute := userNames (lower name)

def canonicalGroupAttribute (name : String) : Option GroupAttribute := groupNames (lower name)

theorem canonicalUserAttribute_key (a : UserAttribute) :
    canonicalUserAttribute lower a.key = some a := by
  have hascii : ∀ a ∈ UserAttribute.all, Text.isAscii a.key = true := by decide
  have hfind : ∀ a ∈ UserAttribute.all, userNames (lowerKey a.key) = some a := by decide
  rw [canonicalUserAttribute, lower.ascii _ (hascii a a.mem_all)]
  exact hfind a a.mem_all

theorem canonicalGroupAttribute_key (a : GroupAttribute) :
    canonicalGroupAttribute lower a.key = some a := by
  have hascii : ∀ a ∈ GroupAttribute.all, Text.isAscii a.key = true := by decide
  have hfind : ∀ a ∈ GroupAttribute.all, groupNames (lowerKey a.key) = some a := by decide
  rw [canonicalGroupAttribute, lower.ascii _ (hascii a a.mem_all)]
  exact hfind a a.mem_all

end Names

/-! ## Checks -/

/-- An object whose keys are attributes. -/
abbrev Resource (α : Type) := α → Option Value

/-- `object(value, name)`. -/
def object (value : Value) (name : String) : Except Error (List (String × Value)) :=
  match value with
  | .object entries => .ok entries
  | _ => .error (invalidValue (name ++ " must be an object."))

/-- `text(value, name, { required, max })`; `none` is `undefined`. -/
def text (value : Value) (name : String) (required : Bool := false) (max : Nat := 2048) :
    Except Error (Option String) :=
  if value.isNullish && !required then .ok none
  else
    let wrong := invalidValue
      (name ++ " must be " ++ (if required then "a non-empty" else "a") ++ " string.")
    match value with
    | .string s =>
      if (required && Text.trim s = "") || max < Text.length s then .error wrong else .ok (some s)
    | _ => .error wrong

section Canonical

variable {α : Type} [DecidableEq α] (lower : LowerCase) (names : String → Option α)

/-- One entry of the loop of `canonicalInput`. -/
def canonicalEntry (result : Resource α) (entry : String × Value) : Except Error (Resource α) :=
  let (rawName, value) := entry
  if lower rawName = "schemas" then .ok result
  else if lower rawName = "id" ∨ lower rawName = "meta" then
    .error (.scim 400 (rawName ++ " is readOnly.") (some "mutability"))
  else if lower rawName = "groups" then
    .error (.scim 400 "groups is readOnly and is managed through Group membership."
      (some "mutability"))
  else
    match names (lower rawName) with
    | none => .error (invalidValue
        ("Attribute " ++ rawName ++ " is not supported by this resource type."))
    | some name => .ok (Function.update result name (some value))

/-- `canonicalInput(input, names, schemaUrn)`. -/
def canonicalInput (schemaUrn : String) (input : Value) : Except Error (Resource α) := do
  let entries ← object input "The SCIM resource"
  let schemas := input.get "schemas"
  if !schemas.isNullish && !schemas.items.any (·.same (.string schemaUrn)) then
    .error (.scim 400 ("schemas must include " ++ schemaUrn ++ ".") (some "invalidSyntax"))
  else entries.foldlM (canonicalEntry lower names) fun _ => none

end Canonical

/-! ## Users -/

/-- A member of a normalised record whose value is a text. -/
inductive Field
  | missing
  | undefined
  | value (s : String)
  deriving DecidableEq

/-- The value; `none` is `undefined`. -/
def Field.text? : Field → Option String
  | .value s => some s
  | _ => none

def Field.ofText? : Option String → Field
  | none => .undefined
  | some s => .value s

/-- A member of the record with its key. -/
def Field.toValue : Field → Option Value
  | .missing => none
  | .undefined => some .undefined
  | .value s => some (.string s)

/-- The normalised value of a complex attribute. -/
abbrev Complex := OrderedMap String String

def Complex.toValue (c : Complex) : Value :=
  .object (c.entries.map fun entry => (entry.1, .string entry.2))

/-- A normalised value of a multi-valued attribute: `primary`, and the sub-attributes that are
texts. -/
structure Item where
  primary : Option Bool
  texts : OrderedMap String String

def Item.toValue (item : Item) : Value :=
  .object ((item.primary.map fun b => ("primary", Value.bool b)).toList ++
    item.texts.entries.map fun entry => (entry.1, .string entry.2))

/-- What `normalizeUser` returns. -/
structure User where
  userName : String
  externalId : Field
  text : TextAttribute → Field
  active : Bool
  password : Field
  name : Option Complex
  multi : MultiAttribute → Option (List Item)

/-- The record as an object. -/
def User.toResource (user : User) : Resource UserAttribute
  | .userName => some (.string user.userName)
  | .externalId => user.externalId.toValue
  | .active => some (.bool user.active)
  | .password => user.password.toValue
  | .name => user.name.map Complex.toValue
  | .text a => (user.text a).toValue
  | .multi a => (user.multi a).map fun items => .array (items.map Item.toValue)

/-- One entry of the loop of `normalizeComplex`. -/
def complexEntry (name : String) (result : Complex) (entry : String × Value) :
    Except Error Complex :=
  if entry.2.isNullish then .ok result
  else
    match entry.2 with
    | .string s =>
      if 2048 < Text.length s then
        .error (invalidValue (name ++ "." ++ entry.1 ++ " must be a string."))
      else .ok (assign entry.1 s result)
    | _ => .error (invalidValue (name ++ "." ++ entry.1 ++ " must be a string."))

def normalizeComplex (value : Value) (name : String) : Except Error Complex := do
  let entries ← object value name
  entries.foldlM (complexEntry name) .empty

/-- One entry of the inner loop of `normalizeMulti`; `place` is `name[index]`. -/
def itemEntry (place : String) (result : Item) (entry : String × Value) : Except Error Item :=
  if entry.2.isNullish then .ok result
  else if entry.1 = "primary" then
    match entry.2 with
    | .bool b => .ok { result with primary := some b }
    | _ => .error (invalidValue (place ++ ".primary must be a boolean."))
  else
    match text entry.2 (place ++ "." ++ entry.1) with
    | .error e => .error e
    | .ok none => .ok result
    | .ok (some s) => .ok { result with texts := assign entry.1 s result.texts }

def normalizeItem (place : String) (value : Value) : Except Error Item := do
  let entries ← object value place
  entries.foldlM (itemEntry place) ⟨none, .empty⟩

def normalizeItems (name : String) : Nat → List Value → Except Error (List Item)
  | _, [] => .ok []
  | index, entry :: entries => do
    let item ← normalizeItem (name ++ "[" ++ toString index ++ "]") entry
    let items ← normalizeItems name (index + 1) entries
    return item :: items

def normalizeMulti (value : Value) (name : String) : Except Error (List Item) :=
  match value with
  | .array entries => do
    let result ← normalizeItems name 0 entries
    if 1 < result.countP (fun item => item.primary = some true) then
      .error (invalidValue (name ++ " cannot contain more than one primary value."))
    else return result
  | _ => .error (invalidValue (name ++ " must be an array."))

/-- `if (name in source) result[name] = text(source[name], name, { max })`. -/
def fieldIn (source : Resource UserAttribute) (a : UserAttribute) (max : Nat := 2048) :
    Except Error Field :=
  match source a with
  | none => .ok .missing
  | some value => (text value a.key false max).map Field.ofText?

def normalizeActive (source : Resource UserAttribute) : Except Error Bool :=
  match source .active with
  | none => .ok true
  | some (.bool active) => .ok active
  | some _ => .error (invalidValue "active must be a boolean.")

/-- `userName`, a text that is not blank. -/
def requiredName (value : Value) (name : String) : Except Error String := do
  let s ← text value name true 256
  return Text.trim (s.getD "")

def normalizePassword (source : Resource UserAttribute) (existingPassword : Option String) :
    Except Error Field :=
  match source .password, existingPassword with
  | none, some password => .ok (.value password)
  | _, _ => fieldIn source .password 1024

def normalizeName (source : Resource UserAttribute) : Except Error (Option Complex) :=
  match source .name with
  | none => .ok none
  | some value => (normalizeComplex value "name").map some

def normalizeAttribute (source : Resource UserAttribute) (a : MultiAttribute) :
    Except Error (Option (List Item)) :=
  match source (.multi a) with
  | none => .ok none
  | some value => (normalizeMulti value a.key).map some

/-- Looks a key up in what a loop over the keys has computed. -/
def collected {κ ν : Type} [DecidableEq κ] (otherwise : ν) (entries : List (κ × ν)) (k : κ) : ν :=
  (OrderedMap.lookup k entries).getD otherwise

/-- `normalizeUser` of a resource with canonical names. -/
def normalizeUserSource (source : Resource UserAttribute) (existingPassword : Option String) :
    Except Error User := do
  let userName ← requiredName ((source .userName).getD .undefined) "userName"
  let externalId ← fieldIn source .externalId 256
  let texts ← TextAttribute.all.mapM fun a => (fieldIn source (.text a)).map fun field => (a, field)
  let active ← normalizeActive source
  let password ← normalizePassword source existingPassword
  let name ← normalizeName source
  let multi ← MultiAttribute.all.mapM fun a =>
    (normalizeAttribute source a).map fun items => (a, items)
  return ⟨userName, externalId, collected .missing texts, active, password, name,
    collected none multi⟩

/-- `normalizeUser(input, { existingPassword })`. -/
def normalizeUser (lower : LowerCase) (input : Value) (existingPassword : Option String) :
    Except Error User := do
  let source ← canonicalInput lower userNames SCIM_URNS.user input
  normalizeUserSource source existingPassword

/-! ## Groups -/

/-- What `normalizeGroup` returns. The type of every member is `User`. -/
structure Group where
  displayName : String
  externalId : Field
  members : List String
  deriving DecidableEq

/-- One member of the loop of `normalizeGroup`. -/
def normalizeMember (index : Nat) (seen : List String) (entry : Value) : Except Error String := do
  let place := "members[" ++ toString index ++ "]"
  let _ ← object entry place
  let value ← text (entry.get "value") (place ++ ".value") true 256
  let value := value.getD ""
  if value ∈ seen then
    .error (invalidValue ("members contains duplicate User " ++ value ++ "."))
  else
    let type := entry.get "type"
    match type.text? with
    | none => .error .typeError
    | some s =>
      if !type.isNullish && lowerKey s ≠ "user" then
        .error (invalidValue "Only User group members are supported.")
      else return value

def normalizeMembers : Nat → List String → List Value → Except Error (List String)
  | _, _, [] => .ok []
  | index, seen, entry :: entries => do
    let value ← normalizeMember index seen entry
    let values ← normalizeMembers (index + 1) (value :: seen) entries
    return value :: values

/-- `normalizeGroup` of a resource with canonical names. -/
def normalizeGroupSource (source : Resource GroupAttribute) : Except Error Group := do
  let displayName ← requiredName ((source .displayName).getD .undefined) "displayName"
  let externalId ← match source .externalId with
    | none => .ok .missing
    | some value => (text value "externalId" false 256).map Field.ofText?
  let members ← match source .members with
    | none => .ok []
    | some (.array entries) => normalizeMembers 0 [] entries
    | some _ => .error (invalidValue "members must be an array.")
  return ⟨displayName, externalId, members⟩

def normalizeGroup (lower : LowerCase) (input : Value) : Except Error Group := do
  let source ← canonicalInput lower groupNames SCIM_URNS.group input
  normalizeGroupSource source

end AuthMe.Scim

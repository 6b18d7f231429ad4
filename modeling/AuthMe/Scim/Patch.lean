import AuthMe.Scim.Attributes
import AuthMe.Scim.Literal

/-!
# PATCH

`src/src/scim/patch.js`: the operations of a PATCH body, applied to a resource one after the other.

A resource is read by its canonical attribute names; what a client writes into it need not be a
valid value, that is for the normalisation afterwards.
-/

namespace AuthMe.Scim

inductive PatchOp
  | add | replace | remove
  deriving DecidableEq

def PatchOp.name : PatchOp → String
  | .add => "add"
  | .replace => "replace"
  | .remove => "remove"

/-- What `parsePath` returns: the filter with its attribute and its value. -/
structure Path (α : Type) where
  attr : α
  filter : Option (String × List Nat)
  subAttribute : Option String

def invalidPath (detail : String) : Error := .scim 400 detail (some "invalidPath")

def noTarget (detail : String) : Error := .scim 400 detail (some "noTarget")

def invalidSyntax (detail : String) : Error := .scim 400 detail (some "invalidSyntax")

/-! ## Paths -/

/-- `[A-Za-z0-9$-]`. -/
def isPathName (c : Char) : Bool := isLetter c || c.isDigit || c == '$' || c == '-'

/-- The groups of `pathExpression`: a name, a filter as its two groups, and a sub-attribute. -/
structure PathMatch where
  name : String
  filter : Option (String × List Char)
  subAttribute : Option String

/-- `(?:\[([A-Za-z][A-Za-z0-9$-]*)\s+eq\s+"((?:[^"\\]|\\.)*)"\])?` at the start of a text. -/
def bracket? : List Char → Option (Option (String × List Char) × List Char)
  | '[' :: rest => do
    let (name, rest) ← name? isPathName rest
    let (literal, rest) ← comparison? rest
    match rest with
    | ']' :: rest => some (some (name, literal), rest)
    | _ => none
  | cs => some (none, cs)

/-- `(?:\.([A-Za-z][A-Za-z0-9$-]*))?` at the start of a text. -/
def dotted? : List Char → Option (Option String × List Char)
  | '.' :: rest => do
    let (name, rest) ← name? isPathName rest
    some (some name, rest)
  | cs => some (none, cs)

/-- `pathExpression.exec(text)`. -/
def pathExpression (s : String) : Option PathMatch := do
  let (name, rest) ← name? isPathName s.toList
  let (filter, rest) ← bracket? rest
  let (subAttribute, rest) ← dotted? rest
  if rest = [] then some ⟨name, filter, subAttribute⟩ else none

/-- `parsePath(input, canonical)`. -/
def parsePath {α : Type} (canonical : String → Option α) (input : Value) : Except Error (Path α) :=
  match input with
  | .string s =>
    match pathExpression (Text.trim s) with
    | none => .error (invalidPath ("PATCH path " ++ s ++ " is invalid."))
    | some found =>
      match canonical found.name with
      | none => .error (invalidPath ("PATCH path " ++ s ++ " is not supported."))
      | some attr =>
        match found.filter with
        | none => .ok ⟨attr, none, found.subAttribute⟩
        | some (filterAttribute, literal) =>
          match parseLiteral literal with
          | none => .error (invalidPath ("PATCH path " ++ s ++ " is invalid."))
          | some value => .ok ⟨attr, some (filterAttribute, value), found.subAttribute⟩
  | _ => .error (invalidPath "PATCH path must be a string.")

/-! ## One assignment -/

/-- The value of an object after `object[key] = value`. -/
def Value.set (v : Value) (key : String) (value : Value) : Value :=
  match v with
  | .object entries => .object (OrderedMap.put key value entries)
  | _ => .object [(key, value)]

/-- The value of an object after `delete object[key]`. -/
def Value.delete (v : Value) (key : String) : Value :=
  match v with
  | .object entries => .object (entries.filter fun entry => entry.1 ≠ key)
  | v => v

section Assignment

variable {α : Type} [DecidableEq α]

/-- `setSimple(resource, path, op, value)`. A value of an attribute that is no object is replaced by
one when a sub-attribute is set. -/
def setSimple (resource : Resource α) (path : Path α) (op : PatchOp) (value : Value) :
    Except Error (Resource α) :=
  if path.filter.isSome then
    .error (invalidPath "Value filters are supported only for multi-valued attributes.")
  else
    match path.subAttribute with
    | some sub =>
      let current := (resource path.attr).getD .undefined
      if op = .remove then
        match current with
        -- the only own property of an array that a path can name is one that cannot be deleted
        | .array _ =>
          if sub = "length" then .error .typeError
          else .error (noTarget "The PATCH path did not match a value.")
        | current =>
          if current.hasOwn sub then
            .ok (Function.update resource path.attr (some (current.delete sub)))
          else .error (noTarget "The PATCH path did not match a value.")
      else .ok (Function.update resource path.attr (some (current.set sub value)))
    | none =>
      if op = .remove then
        if (resource path.attr).isSome then .ok (Function.update resource path.attr none)
        else .error (noTarget "The PATCH path did not match a value.")
      else .ok (Function.update resource path.attr (some value))

/-- `String(item?.value) !== filterValue`, for every item; `none` is the `TypeError`. -/
def retainedItems (filterValue : List Nat) : List Value → Option (List Value)
  | [] => some []
  | item :: items =>
    match (item.get "value").text?, retainedItems filterValue items with
    | some text, some retained =>
      some (if Text.units text ≠ filterValue then item :: retained else retained)
    | _, _ => none

/-- `item?.value == null || !existingValues.has(item.value)`. -/
def isAddition (current : List Value) (item : Value) : Bool :=
  (item.get "value").isNullish ||
    !current.any fun other =>
      !(other.get "value").isNullish && (other.get "value").same (item.get "value")

/-- `setMulti(resource, path, op, value)`. -/
def setMulti (resource : Resource α) (path : Path α) (op : PatchOp) (value : Value) :
    Except Error (Resource α) :=
  let current := ((resource path.attr).getD .undefined).items
  let result (items : List Value) : Except Error (Resource α) :=
    .ok (Function.update resource path.attr (some (.array items)))
  match path.filter with
  | some (filterAttribute, filterValue) =>
    if lowerKey filterAttribute ≠ "value" ∨ path.subAttribute.isSome then
      .error (invalidPath "Only a value eq filter is supported for this multi-valued path.")
    else
      match retainedItems filterValue current with
      | none => .error .typeError
      | some retained =>
        if retained.length = current.length ∧ op ≠ .add then
          .error (noTarget "The PATCH value filter did not match a value.")
        else if op = .remove then result retained
        else result (retained ++ value.toItems)
  | none =>
    if path.subAttribute.isSome then
      .error (invalidPath
        "Sub-attribute updates on multi-valued attributes require a supported value filter.")
    else
      match op with
      | .remove =>
        if (resource path.attr).isSome then .ok (Function.update resource path.attr none)
        else .error (noTarget "The PATCH path did not match a value.")
      | .add => result (current ++ value.toItems.filter (isAddition current))
      | .replace => result value.toItems

end Assignment

/-! ## The operations of a body -/

section Operations

variable {α : Type} [DecidableEq α] (lower : LowerCase)

/-- `operations(body)`. -/
def operations (body : Value) : Except Error (List Value) :=
  match body with
  | .object _ =>
    if !(body.get "schemas").items.any (·.same (.string SCIM_URNS.patchOp)) then
      .error (invalidSyntax ("PATCH schemas must include " ++ SCIM_URNS.patchOp ++ "."))
    else
      match body.get "Operations" with
      | .array items =>
        if items = [] ∨ 100 < items.length then
          .error (invalidValue
            "PATCH Operations must be a non-empty array of at most 100 operations.")
        else .ok items
      | _ => .error (invalidValue
          "PATCH Operations must be a non-empty array of at most 100 operations.")
  | _ => .error (invalidSyntax "PATCH body must be an object.")

/-- `operationName(value)`. -/
def operationName (value : Value) : Except Error PatchOp :=
  match value.text? with
  | none => .error .typeError
  | some s =>
    let name := lower (if value.isNullish then "" else s)
    if name = PatchOp.add.name then .ok .add
    else if name = PatchOp.replace.name then .ok .replace
    else if name = PatchOp.remove.name then .ok .remove
    else .error (invalidValue ("PATCH op " ++ s ++ " is not supported."))

variable (canonical : String → Option α) (isMulti : α → Bool)

/-- `setMulti` or `setSimple`. -/
def setAttribute (resource : Resource α) (path : Path α) (op : PatchOp) (value : Value) :
    Except Error (Resource α) :=
  if isMulti path.attr then setMulti resource path op value else setSimple resource path op value

/-- One entry of the value of an operation without a path. -/
def applyEntry (op : PatchOp) (next : Resource α) (entry : String × Value) :
    Except Error (Resource α) :=
  match canonical entry.1 with
  | none => .error (invalidPath ("PATCH attribute " ++ entry.1 ++ " is not supported."))
  | some attr => setAttribute isMulti next ⟨attr, none, none⟩ op entry.2

/-- One operation. -/
def applyOperation (next : Resource α) (raw : Value) : Except Error (Resource α) :=
  match raw with
  | .object _ => do
    let op ← operationName lower (raw.get "op")
    if (raw.get "path").isNullish then
      if op = .remove then .error (noTarget "A remove operation requires a path.")
      else
        match raw.get "value" with
        | .object entries => entries.foldlM (applyEntry canonical isMulti op) next
        | _ => .error (invalidValue
            "A pathless add/replace operation requires an object value.")
    else
      let path ← parsePath canonical (raw.get "path")
      if op ≠ .remove ∧ !raw.hasOwn "value" then
        .error (invalidValue ("PATCH " ++ op.name ++ " requires a value."))
      else setAttribute isMulti next path op (raw.get "value")
  | _ => .error (invalidValue "Each PATCH operation must be an object.")

/-- `apply(resource, body, canonical, multiAttributes)`. -/
def applyPatch (resource : Resource α) (body : Value) : Except Error (Resource α) := do
  let list ← operations body
  list.foldlM (applyOperation lower canonical isMulti) resource

end Operations

def UserAttribute.isMulti : UserAttribute → Bool
  | .multi _ => true
  | _ => false

def GroupAttribute.isMulti : GroupAttribute → Bool
  | .members => true
  | _ => false

def applyUserPatch (lower : LowerCase) (resource : Resource UserAttribute) (body : Value) :
    Except Error (Resource UserAttribute) :=
  applyPatch lower (canonicalUserAttribute lower) UserAttribute.isMulti resource body

def applyGroupPatch (lower : LowerCase) (resource : Resource GroupAttribute) (body : Value) :
    Except Error (Resource GroupAttribute) :=
  applyPatch lower (canonicalGroupAttribute lower) GroupAttribute.isMulti resource body

end AuthMe.Scim

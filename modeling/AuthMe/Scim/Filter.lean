import AuthMe.Scim.Attributes
import AuthMe.Scim.Literal

/-!
# Filters and pages

`src/src/scim/filter.js`: the filter and the page that a client asks for.
-/

namespace AuthMe.Scim

/-- `toLowerCase()` on code units. -/
structure LowerUnits where
  apply : List Nat → List Nat
  ascii : ∀ s, Text.isAscii s = true → apply (Text.units s) = Text.units (lowerKey s)

instance : CoeFun LowerUnits fun _ => List Nat → List Nat := ⟨LowerUnits.apply⟩

/-- `toLowerCase()` for ASCII. -/
def asciiUnits : LowerUnits where
  apply u := Text.units (lowerKey (Text.wellFormed u))
  ascii s _ := by rw [Text.wellFormed_units]

inductive ResourceType
  | user
  | group
  deriving DecidableEq

def ResourceType.name : ResourceType → String
  | .user => "User"
  | .group => "Group"

inductive FilterAttribute
  | id | userName | externalId | active | displayName | membersValue
  deriving DecidableEq

structure Filter where
  attr : FilterAttribute
  value : List Nat

def invalidFilter (detail : String) : Error := .scim 400 detail (some "invalidFilter")

/-- The map `supported`. -/
def supported : ResourceType → List (String × FilterAttribute)
  | .user => [("id", .id), ("username", .userName), ("externalid", .externalId), ("active", .active)]
  | .group => [("id", .id), ("displayname", .displayName), ("externalid", .externalId),
    ("members.value", .membersValue)]

/-- `[A-Za-z0-9$_.-]`. -/
def isFilterName (c : Char) : Bool :=
  isLetter c || c.isDigit || c == '$' || c == '_' || c == '.' || c == '-'

/-- `eqFilter.exec(text)`: the two groups. -/
def eqFilter (s : String) : Option (String × List Char) := do
  let (name, rest) ← name? isFilterName s.toList
  let (literal, rest) ← comparison? rest
  if rest = [] then some (name, literal) else none

def parseFilter (lower : LowerUnits) (input : Value) (resourceType : ResourceType) :
    Except Error (Option Filter) :=
  if input.isNullish then .ok none
  else
    match input with
    | .string s =>
      if s = "" then .ok none
      else if 1024 < Text.length s then .error (invalidFilter "The filter is invalid.")
      else
        match eqFilter (Text.trim s) with
        | none => .error (invalidFilter
            "Only a single attribute eq \"value\" filter is supported.")
        | some (name, literal) =>
          match OrderedMap.lookup (lowerKey name) (supported resourceType) with
          | none => .error (invalidFilter
              ("Filtering " ++ resourceType.name ++ " by " ++ name ++ " is not supported."))
          | some attr =>
            match parseLiteral literal with
            | none => .error (invalidFilter "The filter string is malformed.")
            | some value =>
              if attr = .active ∧ lower value ≠ Text.units "true" ∧
                  lower value ≠ Text.units "false" then
                .error (invalidFilter "The active filter value must be true or false.")
              else .ok (some ⟨attr, value⟩)
    | _ => .error (invalidFilter "The filter is invalid.")

/-- The attributes that a filter of a resource type compares, and the texts of `active`. -/
theorem parseFilter_ok {lower : LowerUnits} {input : Value} {resourceType : ResourceType}
    {f : Filter} (h : parseFilter lower input resourceType = .ok (some f)) :
    f.attr ∈ (supported resourceType).map Prod.snd ∧
      (f.attr = .active →
        lower f.value = Text.units "true" ∨ lower f.value = Text.units "false") := by
  unfold parseFilter at h
  split at h
  · cases h
  · split at h
    · split at h
      · cases h
      · split at h
        · cases h
        · split at h
          · cases h
          · rename_i name literal _
            split at h
            · cases h
            · rename_i attr hattr
              split at h
              · cases h
              · rename_i value _
                split at h
                · cases h
                · rename_i hactive
                  cases h
                  refine ⟨List.mem_map_of_mem (OrderedMap.mem_of_lookup hattr), ?_⟩
                  intro heq
                  by_contra hneither
                  rw [not_or] at hneither
                  exact hactive ⟨heq, hneither⟩
    · cases h

/-! ## Pages -/

structure Page where
  startIndex : Nat
  count : Nat
  pos : 1 ≤ startIndex

/-- `/^\d+$/` and `Number(...)`. -/
def decimal? (s : String) : Option Nat :=
  if s.toList ≠ [] ∧ s.toList.all Char.isDigit then
    some (s.toList.foldl (fun n c => 10 * n + (c.toNat - 48)) 0)
  else none

/-- `integer(value, fallback, name, minimum)`. -/
def integer {minimum : Nat} (value : Value) (fallback : { n : Nat // minimum ≤ n }) (name : String) :
    Except Error { n : Nat // minimum ≤ n } :=
  match value with
  | .undefined | .null | .string "" => .ok fallback
  | value =>
    match value.text? with
    | none => .error .typeError
    | some s =>
      match decimal? s with
      | none => .error (invalidValue (name ++ " must be an integer."))
      | some n =>
        if h : isSafeInteger n ∧ minimum ≤ n then .ok ⟨n, h.2⟩
        else .error (invalidValue (name ++ " is out of range."))

/-- `pagination(query, maxPageSize, defaultPageSize)`. -/
def pagination (startIndex count : Value) (maxPageSize defaultPageSize : Nat) :
    Except Error Page := do
  let startIndex ← integer startIndex ⟨1, Nat.le_refl 1⟩ "startIndex"
  let requested ← integer count ⟨defaultPageSize, Nat.zero_le _⟩ "count"
  return ⟨startIndex, min requested maxPageSize, startIndex.2⟩

/-- The members of `req.query` that a list reads. -/
structure ListQuery where
  startIndex : Value
  count : Value
  filter : Value

/-- The arguments of `listUsers` and `listGroups`. -/
def listArguments (lower : LowerUnits) (type : ResourceType) (maxPageSize defaultPageSize : Nat)
    (query : ListQuery) : Except Error (Option Filter × Page) := do
  let page ← pagination query.startIndex query.count maxPageSize defaultPageSize
  let filter ← parseFilter lower query.filter type
  return (filter, page)

theorem parseFilter_of_listArguments {lower : LowerUnits} {type : ResourceType}
    {maxPageSize defaultPageSize : Nat} {query : ListQuery} {filter : Option Filter} {page : Page}
    (h : listArguments lower type maxPageSize defaultPageSize query = .ok (filter, page)) :
    parseFilter lower query.filter type = .ok filter := by
  obtain ⟨page', -, h⟩ := bind_eq_ok.mp h
  obtain ⟨filter', hfilter, h⟩ := bind_eq_ok.mp h
  cases h
  exact hfilter

end AuthMe.Scim

import AuthMe.Text
import AuthMe.Basic
import AuthMe.Collections.OrderedMap

/-!
# JSON values

What `JSON.parse` makes of a request body, and the operators of JavaScript that the SCIM modules
apply to it. `undefined` is no JSON value; it is there because a record can have a key without a
value. Of a number only its text is ever read.
-/

namespace AuthMe.Scim

inductive Value
  | undefined
  | null
  | bool (b : Bool)
  | number (text : String)
  | string (s : String)
  | array (items : List Value)
  | object (entries : List (String × Value))

namespace Value

/-- `value == null`. -/
def isNullish : Value → Bool
  | undefined | null => true
  | _ => false

/-- `value?.[key]`, with an own property or none. -/
def get (key : String) : Value → Value
  | object entries => (OrderedMap.lookup key entries).getD undefined
  | _ => undefined

/-- `Object.hasOwn(value, key)` of an object. -/
def hasOwn (key : String) : Value → Bool
  | object entries => (OrderedMap.lookup key entries).isSome
  | _ => false

/-- `Array.isArray(value) ? value : []`. -/
def items : Value → List Value
  | array items => items
  | _ => []

/-- `Array.isArray(value) ? value : [value]`. -/
def toItems : Value → List Value
  | array items => items
  | v => [v]

/-- Two values that are one to a `Set`: equal primitive values. Objects that were cloned apart are
never one. -/
def same : Value → Value → Bool
  | undefined, undefined | null, null => true
  | bool a, bool b => a = b
  | number a, number b => a = b
  | string a, string b => a = b
  | _, _ => false

mutual

/-- `String(value)`; `none` is the `TypeError` of an object that hides `toString`. -/
def text? : Value → Option String
  | undefined => some "undefined"
  | null => some "null"
  | bool b => some (if b then "true" else "false")
  | number text => some text
  | string s => some s
  | array items => (elements? items).map (String.intercalate ",")
  | object entries =>
    if (OrderedMap.lookup "toString" entries).isSome then none else some "[object Object]"

/-- The texts that `join` puts together. -/
def elements? : List Value → Option (List String)
  | [] => some []
  | v :: vs =>
    match (if v.isNullish then some "" else text? v), elements? vs with
    | some text, some texts => some (text :: texts)
    | _, _ => none

end

end Value

/-- The entries of an object after `result[key] = value`, where the value is no object: assigning
it to `__proto__` does nothing. -/
def assign {ν : Type} (key : String) (value : ν) (result : OrderedMap String ν) :
    OrderedMap String ν :=
  if key = "__proto__" then result else result.set key value

/-- `toLowerCase()`. The case mapping of Unicode is a parameter. -/
structure LowerCase where
  apply : String → String
  ascii : ∀ s, Text.isAscii s = true → apply s = String.ofList (s.toList.map asciiLower)

instance : CoeFun LowerCase fun _ => String → String := ⟨LowerCase.apply⟩

/-- The mapping that knows no letters but those of ASCII. -/
def LowerCase.onlyAscii : LowerCase := ⟨fun s => String.ofList (s.toList.map asciiLower), fun _ _ => rfl⟩

end AuthMe.Scim

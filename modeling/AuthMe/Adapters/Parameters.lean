import AuthMe.Adapters.Record
import AuthMe.Scim.Literal

/-!
# Texts as parameters of a statement

PostgreSQL refuses some strings before it runs a statement. A `text` cannot contain NUL. A JSON text
for `jsonb` cannot have the escape of NUL, nor the escape of a surrogate that is not one of a pair, and
`JSON.stringify` writes either for a string that contains it.
-/

namespace AuthMe.Adapters.Postgres

open Scim (hexUnit?)
open Text (isHighSurrogate isLowSurrogate)

/-- A parameter of type `text`. -/
def asText (text : String) : Except AdapterError Unit :=
  if text.toList.contains '\x00' then .error (.database "22021") else .ok ()

/-- The escapes of a JSON text. `high` is `true` after the escape of a high surrogate. -/
def checkEscapes (high : Bool) : List Char → Except AdapterError Unit
  | '\\' :: 'u' :: a :: b :: c :: d :: rest =>
    match hexUnit? a b c d with
    | none => .error (.database "22P02")
    | some unit =>
      -- a low surrogate is the second half of a pair, and nothing else may follow a high one
      if high != isLowSurrogate unit then .error (.database "22P02")
      else if unit = 0 then .error (.database "22P05")
      else checkEscapes (isHighSurrogate unit) rest
  | '\\' :: _ :: rest => if high then .error (.database "22P02") else checkEscapes false rest
  | _ :: rest => if high then .error (.database "22P02") else checkEscapes false rest
  | [] => if high then .error (.database "22P02") else .ok ()

/-- A JSON text as a parameter of type `jsonb`. -/
def asJsonb (text : String) : Except AdapterError Unit := do
  asText text
  checkEscapes false text.toList

/-- A member of the payload, whose NUL `JSON.stringify` escapes. -/
def asMember (value : Option String) : Except AdapterError Unit :=
  match value with
  | none => .ok ()
  | some v => if v.toList.contains '\x00' then .error (.database "22P05") else .ok ()

/-- The payload as a parameter. -/
def asPayload (payload : Payload) : Except AdapterError Unit := do
  asMember payload.grantId
  asMember payload.userCode
  asMember payload.uid
  asMember payload.accountId
  asJsonb payload.rest

theorem asText_eq_ok {text : String} : asText text = .ok () ↔ text.toList.contains '\x00' = false := by
  unfold asText
  split
  · rename_i hnul
    simpa using hnul
  · rename_i hnul
    simpa using hnul

theorem asMember_eq_ok {value : Option String} :
    asMember value = .ok () ↔ ∀ v, value = some v → v.toList.contains '\x00' = false := by
  cases value with
  | none => simp [asMember]
  | some v =>
    simp only [asMember, Option.some.injEq, forall_eq']
    split
    · rename_i hnul
      simpa using hnul
    · rename_i hnul
      simpa using hnul

/-- A `uuid` has no NUL. -/
theorem asText_text (u : Uuid) : asText u.text = .ok () := by
  rw [asText_eq_ok, Bool.eq_false_iff]
  intro hnul
  rcases u.isHex_or_dash_text '\x00' (List.contains_iff_mem.mp hnul) with h | h
  · exact absurd h (by decide)
  · exact absurd h (by decide)

/-- One half of an emoji is refused, both are a pair. -/
example : checkEscapes false "\"\\ud83d\"".toList = .error (.database "22P02") ∧
    checkEscapes false "\"\\ud83d\\ude00\"".toList = .ok () := by decide +kernel

end AuthMe.Adapters.Postgres

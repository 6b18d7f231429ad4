import AuthMe.Text

/-!
# Texts in filters and paths

The part that the regular expressions of `src/src/scim/filter.js` and `src/src/scim/patch.js` share:
a name, spaces, `eq`, spaces and a text in quotation marks, which `JSON.parse` reads. The value of
such a text is a list of UTF-16 code units, as an escape can name half of a surrogate pair.
-/

namespace AuthMe.Scim

def isLetter (c : Char) : Bool := ('a' ≤ c && c ≤ 'z') || ('A' ≤ c && c ≤ 'Z')

/-- `[0-9A-Fa-f]`. -/
def hexDigit? (c : Char) : Option Nat :=
  if '0' ≤ c ∧ c ≤ '9' then some (c.toNat - 48)
  else if 'a' ≤ c ∧ c ≤ 'f' then some (c.toNat - 87)
  else if 'A' ≤ c ∧ c ≤ 'F' then some (c.toNat - 55)
  else none

/-- The code unit of `\uabcd`. -/
def hexUnit? (a b c d : Char) : Option Nat :=
  match hexDigit? a, hexDigit? b, hexDigit? c, hexDigit? d with
  | some a, some b, some c, some d => some (4096 * a + 256 * b + 16 * c + d)
  | _, _, _, _ => none

/-- The code unit of an escape of one character. -/
def escape? : Char → Option Nat
  | '"' => some 0x22
  | '\\' => some 0x5C
  | '/' => some 0x2F
  | 'b' => some 0x08
  | 'f' => some 0x0C
  | 'n' => some 0x0A
  | 'r' => some 0x0D
  | 't' => some 0x09
  | _ => none

/-- `JSON.parse` of a text between quotation marks; `none` is the exception. -/
def parseLiteral : List Char → Option (List Nat)
  | [] => some []
  | ['\\'] => none
  | '\\' :: 'u' :: a :: b :: c :: d :: rest =>
    match hexUnit? a b c d, parseLiteral rest with
    | some unit, some units => some (unit :: units)
    | _, _ => none
  | '\\' :: c :: rest =>
    match escape? c, parseLiteral rest with
    | some unit, some units => some (unit :: units)
    | _, _ => none
  | c :: rest =>
    if c.toNat < 0x20 ∨ c = '"' then none
    else (parseLiteral rest).map (Text.charUnits c ++ ·)

/-- `((?:[^"\\]|\\.)*)"` at the start of a text: what is in the group, and what follows. -/
def quotedBody : List Char → Option (List Char × List Char)
  | '"' :: rest => some ([], rest)
  | ['\\'] => none
  | '\\' :: c :: rest =>
    if Text.isLineTerminator c then none
    else (quotedBody rest).map fun x => ('\\' :: c :: x.1, x.2)
  | c :: rest => (quotedBody rest).map fun x => (c :: x.1, x.2)
  | [] => none

/-- `\s+` at the start of a text; what follows. -/
def spaces? : List Char → Option (List Char)
  | c :: rest => if Text.isWhiteSpace c then some (rest.dropWhile Text.isWhiteSpace) else none
  | [] => none

/-- `eq`, in any letter case. -/
def equals? : List Char → Option (List Char)
  | a :: b :: rest => if (a = 'e' ∨ a = 'E') ∧ (b = 'q' ∨ b = 'Q') then some rest else none
  | _ => none

/-- `\s+eq\s+"((?:[^"\\]|\\.)*)"` at the start of a text: what is in the group, and what follows. -/
def comparison? (cs : List Char) : Option (List Char × List Char) := do
  let cs ← spaces? cs
  let cs ← equals? cs
  let cs ← spaces? cs
  match cs with
  | '"' :: rest => quotedBody rest
  | _ => none

/-- `[A-Za-z]` and the characters that `more` admits, at the start of a text: the name, and what
follows. -/
def name? (more : Char → Bool) : List Char → Option (String × List Char)
  | c :: rest =>
    if isLetter c then
      some (String.ofList (c :: rest.takeWhile more), rest.dropWhile more)
    else none
  | [] => none

end AuthMe.Scim

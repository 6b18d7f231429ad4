import AuthMe.Basic
import AuthMe.Text

/-!
# The envelope of a SAML response

`responseEnvelope` of `src/src/federation/saml-broker.js`, from the decoded text to the four
attributes that it takes from the start tag. The two regular expressions are written out; each of
their parts can match in one way only, but for the two that are optional.
-/

namespace AuthMe.Federation.Envelope

/-- The code and the message of a `SamlFederationError`. -/
structure Failure where
  code : String
  message : String
  deriving DecidableEq

def isQuote (c : Char) : Bool := c = '"' || c = '\''

/-- `\w`. -/
def isWord (c : Char) : Bool :=
  ('A' ≤ c && c ≤ 'Z') || ('a' ≤ c && c ≤ 'z') || ('0' ≤ c && c ≤ '9') || c = '_'

/-- The rest of a text after a prefix. -/
def strip : List Char → List Char → Option (List Char)
  | [], text => some text
  | _ :: _, [] => none
  | p :: ps, c :: cs => if p = c then strip ps cs else none

/-! ## `extractAttributes` -/

/-- `name\s*=\s*`. -/
def matchHead (name text : List Char) : Option (List Char) :=
  match strip name text with
  | none => none
  | some rest =>
    match rest.dropWhile Text.isWhiteSpace with
    | '=' :: rest => some (rest.dropWhile Text.isWhiteSpace)
    | _ => none

/-- `([^"']*)\1` after the quote `q`: the group, and the rest of the text. -/
def valueAt (q : Char) (text : List Char) : Option (List Char × List Char) :=
  match text.dropWhile (!isQuote ·) with
  | q' :: rest => if q' = q then some (text.takeWhile (!isQuote ·), rest) else none
  | [] => none

/-- `name\s*=\s*(["'])([^"']*)\1`: the second group, and the rest of the text. -/
def matchAt (name text : List Char) : Option (List Char × List Char) :=
  match matchHead name text with
  | some (q :: rest) => if isQuote q then valueAt q rest else none
  | _ => none

/-- The matches of `\sname\s*=\s*(["'])([^"']*)\1` from left to right; there is one for each
character at most. -/
def scan (name : List Char) : Nat → List Char → List (List Char)
  | 0, _ => []
  | _ + 1, [] => []
  | fuel + 1, c :: text =>
    if Text.isWhiteSpace c then
      match matchAt name text with
      | some (value, rest) => value :: scan name fuel rest
      | none => scan name fuel text
    else scan name fuel text

/-- `attributeText.matchAll(pattern)`; the pattern can also match at the start of the text. -/
def matchAll (name text : List Char) : List (List Char) :=
  match matchAt name text with
  | some (value, rest) => value :: scan name rest.length rest
  | none => scan name text.length text

def extractAttribute (text : List Char) (name : String) : Except Failure (Option String) :=
  match matchAll name.toList text with
  | [] => .ok none
  | [value] => .ok (some (String.ofList value))
  | _ => .error ⟨"malformed_saml_response",
      "SAML Response contains duplicate " ++ name ++ " attributes"⟩

def extractAttributes (text : List Char) (names : List String) :
    Except Failure (List (Option String)) := names.mapM (extractAttribute text)

/-! ## `responseEnvelope` -/

/-- `xml.includes('\uFFFD') || /<!DOCTYPE|<!ENTITY/i.test(xml)`. -/
def prohibited (xml : List Char) : Bool :=
  xml.contains (Char.ofNat 0xFFFD) || Text.hasInfix "<!doctype".toList (xml.map asciiLower) ||
    Text.hasInfix "<!entity".toList (xml.map asciiLower)

/-- `<\?xml[^?]*\?>\s*`. -/
def afterDeclaration (text : List Char) : Option (List Char) :=
  match strip "<?xml".toList text with
  | none => none
  | some rest =>
    match rest.dropWhile (· ≠ '?') with
    | '?' :: '>' :: rest => some (rest.dropWhile Text.isWhiteSpace)
    | _ => none

/-- `[A-Za-z_][\w.-]*:`. -/
def afterPrefix : List Char → Option (List Char)
  | [] => none
  | c :: text =>
    if ('A' ≤ c && c ≤ 'Z') || ('a' ≤ c && c ≤ 'z') || c = '_' then
      match text.dropWhile fun c => isWord c || c = '.' || c = '-' with
      | ':' :: rest => some rest
      | _ => none
    else none

/-- `Response\b([^>]*)>`: the group. -/
def afterName (text : List Char) : Option (List Char) :=
  match strip "Response".toList text with
  | none => none
  | some rest =>
    if (rest.head?.any isWord) || !rest.contains '>' then none
    else some (rest.takeWhile (· ≠ '>'))

/-- `<(?:[A-Za-z_][\w.-]*:)?Response\b([^>]*)>`. -/
def responseTag : List Char → Option (List Char)
  | '<' :: text => ((afterPrefix text).bind afterName).or (afterName text)
  | _ => none

/-- The regular expression for the start tag of the root, and its group. -/
def root (xml : List Char) : Option (List Char) :=
  let text := xml.dropWhile Text.isWhiteSpace
  ((afterDeclaration text).bind responseTag).or (responseTag text)

def names : List String := ["ID", "Version", "Destination", "InResponseTo"]

/-- The part of `responseEnvelope` that reads the four attributes. -/
def envelopeAttributes (xml : List Char) : Except Failure (List (Option String)) :=
  if prohibited xml then
    .error ⟨"malformed_saml_response", "SAMLResponse contains prohibited XML constructs"⟩
  else
    match root xml with
    | none => .error ⟨"malformed_saml_response",
        "SAMLResponse does not contain a root Response element"⟩
    | some text => extractAttributes text names

end AuthMe.Federation.Envelope

import AuthMe.Crypto.Csrf
import AuthMe.Federation.Identities
import AuthMe.Scim.NoOp

/-!
# The mapping of federated identities

What the two repositories of `src/src/repositories/federated-identity-repository.js` share: the check of
the input, the links and the answers. A link leads from an identity to a user. The profile and the times
of a link are left out, as no method reads them.
-/

namespace AuthMe.Federation.Mapping

open Scim (LowerCase Value)

/-- The argument of `resolve` and of `link`. -/
structure Input where
  realm : String
  providerId : String
  issuer : String
  externalSubject : String
  allowCreate : Bool := false
  profile : Value := .undefined

/-- `/^[a-z][a-z0-9-]{1,63}$/`. -/
def providerPattern : String → Bool :=
  Csrf.named (fun c => Csrf.isLower c || Csrf.isDecimal c || c == '-') 1 63

/-- `/[\u0000-\u001f\u007f]/`. -/
def controlPattern (text : String) : Bool :=
  text.toList.any fun c => c.toNat ≤ 0x1f || c.toNat = 0x7f

/-- The tests of `issuer` and of `externalSubject`. -/
def isIdentifier (text : String) : Bool :=
  text ≠ "" && Text.length text ≤ 2048 && !controlPattern text

/-- What `normalize` returns. -/
structure Normalized where
  identity : Identity
  allowCreate : Bool
  profile : Scim.Profile

/-- An error is what follows `Invalid federated identity: `. -/
def normalize (lower : LowerCase) (input : Input) : Except String Normalized :=
  if !Csrf.realmPattern input.realm then .error "realm is invalid"
  else if !providerPattern input.providerId then .error "providerId is invalid"
  else if !isIdentifier input.issuer then .error "issuer is invalid"
  else if !isIdentifier input.externalSubject then .error "externalSubject is invalid"
  else
    match Scim.normalizeProfile lower input.externalSubject input.profile with
    | some profile =>
      .ok ⟨⟨input.realm, input.providerId, input.issuer, input.externalSubject⟩, input.allowCreate,
        profile⟩
    | none =>
      match input.profile with
      | .undefined | .null | .object _ => .error "profile username is empty"
      | _ => .error "profile must be an object"

/-- What `link` normalizes: `{ ...input, profile: input.profile ?? { username: 'linked' } }`. -/
def Input.forLink (input : Input) : Input :=
  if input.profile.isNullish then
    { input with profile := .object [("username", .string "linked")] }
  else input

/-- The checks of `link`. -/
def normalizeLink (lower : LowerCase) (input : Input) (userId : String) : Except String Normalized := do
  let normalized ← normalize lower input.forLink
  if (Uuid.parse userId).isNone then .error "userId is invalid" else .ok normalized

structure Link where
  identity : Identity
  userId : String
  deriving DecidableEq

def Link.key (link : Link) : String := Federation.key link.identity

/-- The link is one of the user with the provider. -/
def Link.joins (link : Link) (realm userId providerId issuer : String) : Bool :=
  link.identity.realm = realm && link.userId = userId && link.identity.providerId = providerId &&
    link.identity.issuer = issuer

/-- The links are of one user, with one provider and issuer. -/
def Link.Rivals (link other : Link) : Prop :=
  link.identity.realm = other.identity.realm ∧ link.userId = other.userId ∧
    link.identity.providerId = other.identity.providerId ∧ link.identity.issuer = other.identity.issuer

theorem Link.Rivals.symm {link other : Link} (h : link.Rivals other) : other.Rivals link :=
  ⟨h.1.symm, h.2.1.symm, h.2.2.1.symm, h.2.2.2.symm⟩

theorem joins_of_rivals {link other : Link} (h : link.Rivals other) :
    link.joins other.identity.realm other.userId other.identity.providerId other.identity.issuer =
      true := by
  obtain ⟨hrealm, huser, hprovider, hissuer⟩ := h
  simp [Link.joins, hrealm, huser, hprovider, hissuer]

def syntheticEmail (userId : String) : String := "federated-" ++ userId ++ "@invalid.local"

inductive Status
  | created
  | resolved
  | disabled
  deriving DecidableEq

inductive Failure
  | invalid (message : String)
  | userExists
  /-- any other error -/
  | other
  deriving DecidableEq

/-- What the methods answer, for users of the type `U`. -/
inductive Reply (U : Type)
  | mapped (status : Status) (user : U) (link : Link)
  | notFound
  | linkRequired (user : Option U)
  | linked (link : Link)
  | conflict (link : Option Link)
  | links (links : List Link)
  | unlinked (link : Option Link)
  | failed (e : Failure)

/-- The links that an answer tells. -/
def Reply.told {U : Type} : Reply U → List Link
  | .mapped _ _ link | .linked link => [link]
  | .conflict link | .unlinked link => link.toList
  | .links found => found
  | .notFound | .linkRequired _ | .failed _ => []

inductive Request
  | resolve (input : Input)
  | link (input : Input) (userId : String)
  | list (realm userId : String)
  | unlink (realm userId providerId issuer : String)

/-- The request resolves the identity. -/
def Request.Resolves (lower : LowerCase) (r : Request) (identity : Identity) : Prop :=
  ∃ input normalized, r = .resolve input ∧ normalize lower input = .ok normalized ∧
    normalized.identity = identity

/-- The request links the identity to the user. -/
def Request.Links (lower : LowerCase) (r : Request) (identity : Identity) (userId : String) : Prop :=
  ∃ input normalized, r = .link input userId ∧ normalizeLink lower input userId = .ok normalized ∧
    normalized.identity = identity

end AuthMe.Federation.Mapping

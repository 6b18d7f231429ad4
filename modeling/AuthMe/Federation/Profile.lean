import AuthMe.Scim.Value

/-!
# The profile of an upstream OpenID subject

`consume` of `src/src/federation/oidc.js` merges the claims of the ID Token with those of the UserInfo
response, member by member, and `profileFor` reads the profile from the result. A profile can therefore
join the e-mail address of one source with the verification of the other. `verified_email_iff` says
exactly when it does not.
-/

namespace AuthMe.Federation

open Scim

/-- The members of a claim set. -/
abbrev Claims := OrderedMap String Value

/-- What the mapping reads of a provider. -/
structure ClaimNames where
  usernameClaim : String := "preferred_username"
  groupsClaim : String := "groups"
  rolesClaim : String := "roles"
  requireEmail : Bool := true

structure Profile where
  externalSubject : String
  username : String
  email : String
  emailVerified : Bool
  name : String
  givenName : String
  familyName : String
  groups : List String
  roles : List String
  deriving DecidableEq

/-- The text, if the value is one. -/
def textOf : Value → Option String
  | .string s => some s
  | _ => none

/-- `stringList(value)`. -/
def stringList : Value → List String
  | .array items => ((items.filterMap textOf).map Text.trim).filter (· ≠ "")
  | .string s =>
    ((s.toList.splitOnP fun c => c = ' ' || c = ',').map fun part =>
      Text.trim (String.ofList part)).filter (· ≠ "")
  | _ => []

/-- `claim(claims, path)`. -/
def claim (claims : Claims) (path : String) : Value :=
  (path.splitOn ".").foldl (fun value name => value.get name) (.object claims.entries)

/-- The claim under a fixed name. -/
def Claims.member (claims : Claims) (name : String) : Value := (claims.get? name).getD .undefined

variable (lower : LowerCase)

/-- `typeof value === 'string' ? value.trim().toLowerCase() : ''`. -/
def address (v : Value) : String :=
  match textOf v with
  | none => ""
  | some text => lower (Text.trim text)

/-- The e-mail address of claims. -/
def emailOf (claims : Claims) : String := address lower (claims.member "email")

/-- `typeof value === 'string' ? value.trim() : ''`. -/
def trimmed (v : Value) : String :=
  match textOf v with
  | none => ""
  | some text => Text.trim text

/-- `left || right` of strings. -/
def orElse (left right : String) : String := if left = "" then right else left

/-- `value === true`. -/
def isTrue : Value → Bool
  | .bool b => b
  | _ => false

def profileFor (provider : ClaimNames) (claims : Claims) : Except String Profile :=
  match textOf (claims.member "sub") with
  | none => .error "ID Token subject is missing"
  | some sub =>
    if sub = "" then .error "ID Token subject is missing"
    else
      let email := emailOf lower claims
      if provider.requireEmail && email = "" then
        .error "The upstream identity did not supply a required email address"
      else
        let username := orElse (trimmed (claim claims provider.usernameClaim)) (orElse email sub)
        .ok
          { externalSubject := sub
            username := username
            email := email
            emailVerified := isTrue (claims.member "email_verified")
            name := orElse (trimmed (claims.member "name")) username
            givenName := trimmed (claims.member "given_name")
            familyName := trimmed (claims.member "family_name")
            groups := (stringList (claim claims provider.groupsClaim)).eraseDups
            roles := (stringList (claim claims provider.rolesClaim)).eraseDups }

/-- The claims that `consume` maps, with a UserInfo response or without one. -/
def mergedClaims (payload : Claims) : Option Claims → Except String Claims
  | none => .ok payload
  | some userinfo =>
    if (userinfo.member "sub").same (payload.member "sub") then
      .ok ((payload.spread userinfo).set "sub" (payload.member "sub"))
    else .error "UserInfo subject does not match the ID Token"

/-- The profile of `consume`. -/
def upstreamProfile (provider : ClaimNames) (payload : Claims) (userinfo : Option Claims) :
    Except String Profile := do
  let claims ← mergedClaims payload userinfo
  profileFor lower provider claims

/-! ## Where the e-mail address comes from -/

/-- The source asserts that the address is the subject's and is verified. -/
structure Asserts (source : Claims) (address : String) : Prop where
  nonempty : address ≠ ""
  email : ∃ text, source.get? "email" = some (.string text) ∧ lower (Text.trim text) = address
  verified : source.get? "email_verified" = some (.bool true)

/-- One of the two sources asserts it. -/
def OneAsserts (payload : Claims) (userinfo : Option Claims) (address : String) : Prop :=
  Asserts lower payload address ∨ ∃ source, userinfo = some source ∧ Asserts lower source address

/-- The member of UserInfo, or that of the ID Token where UserInfo has none. -/
def winning (payload : Claims) (userinfo : Option Claims) (name : String) : Value :=
  match userinfo with
  | none => payload.member name
  | some source => if (source.get? name).isSome then source.member name else payload.member name

/-- UserInfo has both members or none of them, or what it has is said by the ID Token too. -/
def Agree (payload : Claims) : Option Claims → Prop
  | none => True
  | some source =>
    ((source.get? "email").isSome ↔ (source.get? "email_verified").isSome) ∨
    ((source.get? "email").isSome ∧ emailOf lower payload = emailOf lower source) ∨
    ((source.get? "email_verified").isSome ∧ isTrue (payload.member "email_verified") = true)

variable {lower} {payload source claims : Claims} {userinfo : Option Claims}

theorem isTrue_member {name : String} :
    isTrue (claims.member name) = true ↔ claims.get? name = some (.bool true) := by
  unfold Claims.member
  cases claims.get? name with
  | none => simp [isTrue]
  | some v => cases v <;> simp [isTrue]

theorem emailOf_eq {text : String} (h : text ≠ "") : emailOf lower claims = text ↔
    ∃ raw, claims.get? "email" = some (.string raw) ∧ lower (Text.trim raw) = text := by
  unfold emailOf address Claims.member
  cases claims.get? "email" with
  | none => simp [textOf, h.symm]
  | some v => cases v <;> simp [textOf, h.symm]

theorem asserts_iff {text : String} : Asserts lower source text ↔
    text ≠ "" ∧ emailOf lower source = text ∧ isTrue (source.member "email_verified") = true := by
  constructor
  · rintro ⟨hne, hemail, hverified⟩
    exact ⟨hne, (emailOf_eq hne).mpr hemail, isTrue_member.mpr hverified⟩
  · rintro ⟨hne, hemail, hverified⟩
    exact ⟨hne, (emailOf_eq hne).mp hemail, isTrue_member.mp hverified⟩

/-- The members of the merged claims but the subject. -/
theorem member_merged (h : mergedClaims payload userinfo = .ok claims) {name : String}
    (hname : name ≠ "sub") : claims.member name = winning payload userinfo name := by
  cases userinfo with
  | none =>
    cases h
    rfl
  | some source =>
    simp only [mergedClaims] at h
    split at h
    · cases h
      rw [Claims.member, OrderedMap.get?_set_of_ne _ hname, OrderedMap.get?_spread]
      cases hsource : source.get? name with
      | none => simp [winning, hsource, Claims.member]
      | some v => simp [winning, hsource, Claims.member]
    · cases h

/-- What a profile says about the e-mail address is what the winning members say. -/
theorem upstreamProfile_eq_ok {provider : ClaimNames} {profile : Profile}
    (h : upstreamProfile lower provider payload userinfo = .ok profile) :
    profile.email = address lower (winning payload userinfo "email") ∧
      profile.emailVerified = isTrue (winning payload userinfo "email_verified") := by
  obtain ⟨claims, hclaims, h⟩ := bind_eq_ok.mp h
  rw [← member_merged hclaims (by decide), ← member_merged hclaims (by decide)]
  unfold profileFor at h
  split at h
  · cases h
  · split at h
    · cases h
    · dsimp only at h
      split at h
      · cases h
      · cases h
        exact ⟨rfl, rfl⟩

/-- A member that a source does not have says nothing. -/
theorem address_of_missing (h : ¬ (source.get? "email").isSome) : emailOf lower source = "" := by
  rw [Option.not_isSome_iff_eq_none] at h
  simp [emailOf, address, Claims.member, h, textOf]

theorem isTrue_of_missing (h : ¬ (source.get? "email_verified").isSome) :
    isTrue (source.member "email_verified") = false := by
  rw [Option.not_isSome_iff_eq_none] at h
  simp [Claims.member, h, isTrue]

/-- One source asserts the winning address, if it is verified, where the sources agree. -/
theorem oneAsserts_iff_agree (hne : address lower (winning payload userinfo "email") ≠ "")
    (hverified : isTrue (winning payload userinfo "email_verified") = true) :
    OneAsserts lower payload userinfo (address lower (winning payload userinfo "email")) ↔
      Agree lower payload userinfo := by
  cases userinfo with
  | none =>
    change emailOf lower payload ≠ "" at hne
    change OneAsserts lower payload none (emailOf lower payload) ↔ True
    rw [iff_true]
    exact .inl (asserts_iff.mpr ⟨hne, rfl, hverified⟩)
  | some source =>
    simp only [OneAsserts, Option.some.injEq, exists_eq_left', asserts_iff, Agree]
    unfold winning at hne hverified ⊢
    dsimp only at hne hverified ⊢
    by_cases he : (source.get? "email").isSome
    · rw [if_pos he] at hne ⊢
      have hself : address lower (source.member "email") = emailOf lower source := rfl
      rw [hself] at hne ⊢
      by_cases hv : (source.get? "email_verified").isSome
      · rw [if_pos hv] at hverified
        simp [he, hv, hverified, hne]
      · rw [if_neg hv] at hverified
        simp [he, hv, hverified, hne, isTrue_of_missing hv]
    · rw [if_neg he] at hne ⊢
      have hself : address lower (payload.member "email") = emailOf lower payload := rfl
      rw [hself] at hne ⊢
      by_cases hv : (source.get? "email_verified").isSome
      · simp [he, hv, hne, address_of_missing he, Ne.symm hne]
      · rw [if_neg hv] at hverified
        simp [he, hv, hverified, hne]

/-- A verified profile has an address that one source asserts, together with its verification,
exactly where the winning member is an address at all and the sources agree on it. -/
theorem verified_email_iff (lower : LowerCase) (provider : ClaimNames) (payload : Claims)
    (userinfo : Option Claims) (profile : Profile)
    (h : upstreamProfile lower provider payload userinfo = .ok profile) :
    (profile.emailVerified = true → OneAsserts lower payload userinfo profile.email) ↔
      (isTrue (winning payload userinfo "email_verified") = true →
        address lower (winning payload userinfo "email") ≠ "" ∧ Agree lower payload userinfo) := by
  obtain ⟨hemail, hverified⟩ := upstreamProfile_eq_ok h
  rw [hverified, hemail]
  apply imp_congr_right
  intro htrue
  constructor
  · intro hone
    have hne : address lower (winning payload userinfo "email") ≠ "" := by
      rcases hone with hone | ⟨_, -, hone⟩
      · exact hone.nonempty
      · exact hone.nonempty
    exact ⟨hne, (oneAsserts_iff_agree hne htrue).mp hone⟩
  · rintro ⟨hne, hagree⟩
    exact (oneAsserts_iff_agree hne htrue).mpr hagree

/-! ### Two addresses -/

/-- The ID Token of a subject whose work address is verified. -/
def idToken : Claims :=
  ((OrderedMap.empty.set "sub" (.string "s")).set "email" (.string "a@b.c")).set "email_verified"
    (.bool true)

/-- A UserInfo response with a contact address and no word about its verification. -/
def contact : Claims := (OrderedMap.empty.set "sub" (.string "s")).set "email" (.string "x@y.z")

/-- The contact address is taken over as verified. -/
theorem contact_is_verified : ∃ profile,
    upstreamProfile .onlyAscii {} idToken (some contact) = .ok profile ∧
      profile.email = "x@y.z" ∧ profile.emailVerified = true ∧
      ¬ OneAsserts .onlyAscii idToken (some contact) profile.email := by
  refine ⟨_, rfl, by decide, rfl, ?_⟩
  rintro (h | ⟨source, hsource, h⟩)
  · obtain ⟨raw, hraw, hemail⟩ := h.email
    cases hraw
    exact absurd hemail (by decide)
  · cases hsource
    cases h.verified

/-- A UserInfo response with the address of the ID Token in other letters and its name, and no word
about the verification. -/
def workContact : Claims :=
  ((OrderedMap.empty.set "sub" (.string "s")).set "email" (.string " A@B.c ")).set "name"
    (.string "Ada")

/-- Where the sources agree on the address, the merged profile joins the name of one with the
verification of the other, and the ID Token asserts what it says. -/
theorem verified_email_iff_idToken : ∃ profile,
    upstreamProfile .onlyAscii {} idToken (some workContact) = .ok profile ∧
      profile.name = "Ada" ∧ profile.emailVerified = true ∧
      OneAsserts .onlyAscii idToken (some workContact) profile.email := by
  refine ⟨_, rfl, by decide, rfl, ?_⟩
  refine (verified_email_iff .onlyAscii {} idToken (some workContact) _ rfl).mpr ?_ rfl
  intro _
  exact ⟨by decide, .inr (.inl ⟨rfl, by decide⟩)⟩

end AuthMe.Federation

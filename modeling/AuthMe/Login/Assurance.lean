import AuthMe.Admin.Console
import AuthMe.Federation.Profile
import AuthMe.Login.Federation

/-!
# What a federated login claims of its authentication

AuthMe's own multi-factor level is `urn:authme:loa:2`, and the method `passkey` stands for a passkey that
it has verified. The methods and the level of a federated login come from the upstream provider: they pass
through the completion record (`completeCallback`) and through the check of that record (`complete`), with
`normalizedResult` at both hops. A SAML response has no say in them, an ID Token has. `local_assurance_iff`:
the login carries the local assurance if and only if it rests on a token that claims it.
-/

namespace AuthMe.Login

open Service Store
open Federation (textOf)
open Scim (Value)
open Transition (Run Always)

variable {cfg : Config} {p : Pool} {tr : Trace} {clock : Instant} {users : Users}
  {credentials : OrderedMap (String × String) Credential}

/-- AuthMe's own assurance: its multi-factor level, or a passkey. -/
def IsLocal (amr : List String) (acr : Option String) : Prop :=
  acr = some "urn:authme:loa:2" ∨ "passkey" ∈ amr

/-! ## The ID Token -/

/-- The `amr` that `consume` of the OpenID broker takes from the payload of the token. -/
def tokenAmr (payload : Federation.Claims) : List String :=
  match payload.member "amr" with
  | .array items => items.filterMap textOf
  | _ => ["federated"]

def tokenAcr (payload : Federation.Claims) : Option String := textOf (payload.member "acr")

def subjectOf (externalSubject : String) (payload : Federation.Claims) : OidcSubject :=
  ⟨externalSubject, tokenAmr payload, tokenAcr payload⟩

theorem textOf_eq_some {v : Value} {s : String} : textOf v = some s ↔ v = .string s := by
  cases v <;> simp [textOf]

/-- The payload of a token claims the local assurance. -/
def ClaimsLocal (payload : Federation.Claims) : Prop :=
  payload.member "acr" = .string "urn:authme:loa:2" ∨
    ∃ items, payload.member "amr" = .array items ∧ .string "passkey" ∈ items

theorem isLocal_token (externalSubject : String) (payload : Federation.Claims) :
    IsLocal (subjectOf externalSubject payload).amr (subjectOf externalSubject payload).acr ↔
      ClaimsLocal payload := by
  have hamr : "passkey" ∈ tokenAmr payload ↔
      ∃ items, payload.member "amr" = .array items ∧ .string "passkey" ∈ items := by
    unfold tokenAmr
    split
    · rename_i items hitems
      simp [hitems, List.mem_filterMap, textOf_eq_some]
    · rename_i hno
      refine ⟨fun h => absurd (List.mem_singleton.mp h) (by decide), ?_⟩
      rintro ⟨items, hitems, -⟩
      exact absurd hitems (hno items)
  exact or_congr textOf_eq_some hamr

/-! ## The two hops -/

theorem normalizedResult_isLocal {amr amr' : List String} {acr : Option String} {acr' : String}
    (h : normalizedResult amr acr = some (amr', acr')) :
    IsLocal amr' (some acr') ↔ IsLocal amr acr := by
  unfold normalizedResult at h
  split at h
  case isFalse => cases h
  cases h
  have hamr : "passkey" ∈ ("federated" :: amr).eraseDups ↔ "passkey" ∈ amr := by
    rw [List.mem_eraseDups, List.mem_cons]
    exact or_iff_right (by decide)
  have hacr : some (acr.getD "urn:authme:loa:federated") = some "urn:authme:loa:2" ↔
      acr = some "urn:authme:loa:2" := by
    cases acr <;> simp
  exact or_congr hacr hamr

/-- The login with the handle rests on what the provider has vouched for in the callback `k`. -/
structure RestsOn (cfg : Config) (tr : Trace) (p : Pool) (n k : Nat) (realm uid handle : String)
    (extension : Extension) (result : FederationResult) : Prop where
  vouched : ∃ callback providerId, p.calls k = some callback ∧
    Upstream cfg callback.request callback.log realm providerId extension result ∧
    result.interactionUid = uid
  handed : ∃ payload version expiresIn,
    Precedes tr k (.artifact (.saveState realm handle payload version expiresIn))
      n (.artifact (.consumeState realm handle))

/-- A federated login that is finished rests on an upstream result, which has passed both hops. -/
theorem rests_on
    (h : Run (Service.step (routes cfg)) Always (.initial (.initial clock users credentials)) tr p)
    {n : Nat} {call : Call} (hcall : p.calls n = some call) {realm uid handle : String}
    (hrequest : call.request = .complete realm uid handle) {realm' uid' : String}
    {login : LoginResult}
    (ha : Answered (I := operations) call.log (.interactionFinished realm' uid' login) ()) :
    ∃ k extension result, ∃ c : Completion, RestsOn cfg tr p n k realm uid handle extension result ∧
      normalizedResult result.amr result.acr = some (c.amr, c.acr) ∧
      normalizedResult c.amr (some c.acr) = some (login.amr, login.acr) := by
  obtain ⟨l, hl, -, hfinishes⟩ := (routes_spec cfg).answered h hcall ha
  cases hfinishes with
  | login hlogin => rw [hrequest] at hlogin; cases hlogin
  | passkey hpasskey => rw [hrequest] at hpasskey; cases hpasskey
  | @complete handle' c amr acr hcomplete hconsumed hbound _ hnormal =>
    rw [hrequest] at hcomplete
    cases hcomplete
    obtain ⟨r, hpayload, -, hfound⟩ := hconsumed.found
    have htakes : Takes p n realm handle := ⟨call, hcall, hconsumed.consumed.mono hl⟩
    obtain ⟨k, payload, version, expiresIn, hsaved, hbefore⟩ := htakes.saved h
    -- the record that was found is the one that the callback has saved
    obtain ⟨k', hsaved'⟩ := found_saved h hcall (hfound.mono hl)
    obtain ⟨rfl, -, -, rfl, rfl⟩ := hsaved.unique h hsaved' (.inl rfl)
    rw [hpayload] at hsaved
    obtain ⟨saver, l', hsaver, hl', -, -, hsaves⟩ := hsaved.facts h
    generalize r.securityVersion = version at hsaves
    cases hsaves with
    | @completion extension providerId result user amr' acr' v hupstream _ _ hnormal' =>
      exact ⟨k, extension, result, _,
        ⟨⟨saver, providerId, hsaver, hupstream.mono hl', hbound.2⟩, _, _, _, hbefore⟩, hnormal', hnormal⟩

/-! ## The local assurance in a run -/

/-- The login with this assurance rests on a SAML response and is not local, or it rests on an ID
Token, whatever its payload is, and is local where the payload claims it. -/
inductive FollowsToken (p : Pool) (k : Nat) (amr : List String) (acr : String) : Extension → Prop
  | saml (hno : ¬ IsLocal amr (some acr)) : FollowsToken p k amr acr .saml
  | oidc (callback : Call) (realm id code : String) (transaction : OidcTransaction)
      (subject : OidcSubject) (hcallback : p.calls k = some callback)
      (hvalid : Answered (I := operations) callback.log
        (.upstream (.oidc realm id code transaction)) (some subject))
      (hpayload : ∀ payload, subject = subjectOf subject.externalSubject payload →
        (IsLocal amr (some acr) ↔ ClaimsLocal payload)) : FollowsToken p k amr acr .oidc

theorem RestsOn.follows {n k : Nat} {realm uid handle : String} {extension : Extension}
    {result : FederationResult} (h : RestsOn cfg tr p n k realm uid handle extension result)
    {amr : List String} {acr : String} (hiff : IsLocal amr (some acr) ↔ IsLocal result.amr result.acr) :
    FollowsToken p k amr acr extension := by
  obtain ⟨callback, providerId, hcallback, hupstream, -⟩ := h.vouched
  cases hupstream with
  | @oidc _ _ _ _ subject _ _ _ _ hvalid =>
    refine .oidc callback _ _ _ _ subject hcallback hvalid fun payload hsubject => hiff.trans ?_
    have htoken := isLocal_token subject.externalSubject payload
    rw [← hsubject] at htoken
    exact htoken
  | saml => exact .saml fun hlocal => absurd (hiff.mp hlocal) (by simp [IsLocal])

/-- What a finished login carries is what the upstream result claims, and that is what the ID Token
claims, if there is one. -/
theorem local_assurance_iff
    (h : Run (Service.step (routes cfg)) Always (.initial (.initial clock users credentials)) tr p)
    {n : Nat} {call : Call} (hcall : p.calls n = some call) {realm uid handle : String}
    (hrequest : call.request = .complete realm uid handle) {realm' uid' : String}
    {login : LoginResult}
    (ha : Answered (I := operations) call.log (.interactionFinished realm' uid' login) ()) :
    ∃ k extension result, RestsOn cfg tr p n k realm uid handle extension result ∧
      (IsLocal login.amr (some login.acr) ↔ IsLocal result.amr result.acr) ∧
      FollowsToken p k login.amr login.acr extension := by
  obtain ⟨k, extension, result, c, hrests, hnormal, hnormal'⟩ := rests_on h hcall hrequest ha
  have hiff := (normalizedResult_isLocal hnormal').trans (normalizedResult_isLocal hnormal)
  exact ⟨k, extension, result, hrests, hiff, hrests.follows hiff⟩

/-- Ada logs in with what the token says of her. -/
def someLoginOf (subject : OidcSubject) : List (Event Request Choice Change) :=
  (someLogin []).set 8 (.resume 1 (.oidc subject))

theorem local_assurance_iff_mfa : ∃ tr p call, p.calls 2 = some call ∧
    ∃ k extension result,
      RestsOn someConfig tr p 2 k "master" "uid" "fedcba9876543210fedcba9876543210" extension result ∧
      (IsLocal ["federated", "mfa"] (some "urn:authme:loa:federated") ↔
        IsLocal result.amr result.acr) ∧
      FollowsToken p k ["federated", "mfa"] "urn:authme:loa:federated" extension := by
  have h : Transition.exec (Service.step (routes someConfig)) Always (.initial someState)
      (someLoginOf ⟨"subject", ["mfa"], none⟩) = some (_, _) := rfl
  have hlaw := @local_assurance_iff someConfig _ _ _ _ _ (.of_exec h) 2 _ rfl "master" "uid"
    "fedcba9876543210fedcba9876543210" rfl "master" "uid"
    ⟨"ada", "urn:authme:loa:federated", ["federated", "mfa"]⟩
    ⟨_, _, List.mem_of_getElem? (i := 0) rfl⟩
  exact ⟨_, _, _, rfl, hlaw⟩

/-- The token says `passkey`, and so does the login: it opens the administration console. -/
theorem upstream_passkey : ∃ tr p call login,
    Run (Service.step (routes someConfig)) Always (.initial someState) tr p ∧
      p.calls 2 = some call ∧
      call.request = .complete "master" "uid" "fedcba9876543210fedcba9876543210" ∧
      call.program = .done (.finished login) ∧ login.acr = "urn:authme:loa:2" ∧
      "passkey" ∈ login.amr ∧ Admin.hasStrongAdminAuthentication login.amr = true := by
  have h : Transition.exec (Service.step (routes someConfig)) Always (.initial someState)
      (someLoginOf ⟨"subject", ["passkey"], some "urn:authme:loa:2"⟩) = some (_, _) := rfl
  exact ⟨_, _, _, ⟨"ada", "urn:authme:loa:2", ["federated", "passkey"]⟩, .of_exec h, rfl, rfl, rfl, rfl,
    by decide, by decide⟩

end AuthMe.Login

import AuthMe.Login.Accounts

/-!
# Password and LDAP logins in a run

What holds in every run of the login routes (`password_login`): a login with a form is finished
for the user whose record the request has read, after its first factor and, where the record
asks for one, after a second factor that this request has spent (`Spends`). No TOTP step and no
recovery code is spent before the first factor.
-/

namespace AuthMe.Login

open Service Store
open Transition (Run Always)

variable {cfg : Config} {p p' : Pool} {tr : Trace}

/-- The call has used up the second factor of the account: it has advanced the last TOTP step, or
it has taken out a recovery code. -/
inductive Spends (log : Log) (realm id : String) : Prop
  | totp {step : Int} {before after : State} {u u' : User}
      (hmem : ⟨.account (.consumeTotpStep realm id step), true, before, after⟩ ∈ log)
      (hbefore : before.accounts.users.get? (realm, id) = some u)
      (hafter : after.accounts.users.get? (realm, id) = some u')
      (hlt : ∀ last, u.lastTotpStep = some last → last < step)
      (hlast : u'.lastTotpStep = some step)
  | recovery {digest : String} {before after : State} {u u' : User}
      (hmem : ⟨.account (.consumeRecoveryCode realm id digest), true, before, after⟩ ∈ log)
      (hbefore : before.accounts.users.get? (realm, id) = some u)
      (hafter : after.accounts.users.get? (realm, id) = some u')
      (hcode : digest ∈ u.recoveryCodeHashes)
      (hcodes : u'.recoveryCodeHashes = u.recoveryCodeHashes.erase digest)

theorem spends_of_secondFactor {s₀ : State} (hkeyed : Keyed s₀.accounts.users)
    (h : Run (Service.step (routes cfg)) Always (.initial s₀) tr p) {n : Nat} {call : Call}
    (hcall : p.calls n = some call) {realm : String} {user : User} {recoveryUsed : Bool}
    (hconfirmed : user.totpConfirmed = true)
    (hsecond : SecondFactorOk realm call.log user recoveryUsed) : Spends call.log realm user.id := by
  cases hsecond with
  | none hno => simp [hconfirmed] at hno
  | @totp step _ ha =>
    obtain ⟨before, after, choice, hmem, -, hanswer⟩ := answered_at hkeyed h hcall ha
    cases answer_cases hanswer with
    | account haccounts =>
      obtain ⟨u, u', hu, haccept, rfl⟩ := Accounts.attempt_eq_true (Option.some.inj haccounts)
      unfold User.acceptTotpStep User.consumeTotpStep at haccept
      split at haccept
      case isFalse => cases haccept
      refine .totp hmem hu (OrderedMap.get?_set_self _ _ _) ?_ ?_
      · intro last hlast
        simp only [hlast] at haccept
        split at haccept
        · assumption
        · cases haccept
      · split at haccept
        · cases haccept; rfl
        · split at haccept <;> cases haccept
          rfl
  | @recovery digest _ ha =>
    obtain ⟨before, after, choice, hmem, -, hanswer⟩ := answered_at hkeyed h hcall ha
    cases answer_cases hanswer with
    | account haccounts =>
      obtain ⟨u, u', hu, haccept, rfl⟩ := Accounts.attempt_eq_true (Option.some.inj haccounts)
      unfold User.consumeRecoveryCode at haccept
      split at haccept <;> cases haccept
      rename_i hcode
      exact .recovery hmem hu (OrderedMap.get?_set_self _ _ _) hcode rfl

def Op.isSecondFactor : Op → Bool
  | .account (.consumeTotpStep ..) | .account (.consumeRecoveryCode ..) => true
  | _ => false

/-- What holds of the logins with a form in a run. -/
structure PasswordLaw (cfg : Config) (p : Pool) : Prop where
  /-- A login that is finished has read the account, enabled and not locked, has passed the first
  factor, and the second one where the record that it has read asks for it. -/
  finished : ∀ {n call realm uid form realm' uid' result}, p.calls n = some call →
    call.request = .login realm uid form →
    Answered (I := operations) call.log (.interactionFinished realm' uid' result) () →
    realm' = realm ∧ uid' = uid ∧ ∃ user method, result.accountId = user.id ∧
      Reads call.log realm user ∧ FirstFactorOk cfg realm form call.log user method ∧
      Usable call.log user ∧ (user.totpConfirmed = true → Spends call.log realm user.id) ∧
      (result.acr = "urn:authme:loa:2" ↔ user.totpConfirmed = true)
  /-- The second factor of an account is tried only when the first one has succeeded for it. -/
  tried : ∀ {n call l x l'}, p.calls n = some call → call.log = l ++ x :: l' →
    Op.isSecondFactor x.op = true → ∃ realm uid form user method,
      call.request = .login realm uid form ∧ FirstFactorOk cfg realm form l' user method ∧
      Usable l' user ∧ ((∃ step, x.op = .account (.consumeTotpStep realm user.id step)) ∨
        ∃ digest, x.op = .account (.consumeRecoveryCode realm user.id digest))
  /-- A code that one request has removed is not removed by another one. -/
  codes : ∀ {key digest m t m'}, Run (Service.step (routes cfg)) (KeepsCodes key) m t m' →
    codes m'.store key digest + t.countP (isConsumption key digest) ≤ codes m.store key digest

theorem passwordResult_acr (user : User) (method : String) (recoveryUsed : Bool) :
    (passwordResult user method recoveryUsed).acr = "urn:authme:loa:2" ↔
      user.totpConfirmed = true := by
  unfold passwordResult
  split <;> simp_all

theorem passwordResult_accountId (user : User) (method : String) (recoveryUsed : Bool) :
    (passwordResult user method recoveryUsed).accountId = user.id := by
  unfold passwordResult
  split <;> rfl

theorem password_login {s₀ : State} (hkeyed : Keyed s₀.accounts.users)
    (h : Run (Service.step (routes cfg)) Always (.initial s₀) tr p) : PasswordLaw cfg p := by
  have hspec := routes_spec cfg
  constructor
  case finished =>
    intro n call realm uid form realm' uid' result hcall hrequest ha
    obtain ⟨l, hl, -, hfinishes⟩ := hspec.answered h hcall ha
    cases hfinishes with
    | passkey hpasskey => rw [hrequest] at hpasskey; cases hpasskey
    | complete hcomplete => rw [hrequest] at hcomplete; cases hcomplete
    | @login form' user method recoveryUsed hlogin hadmitted hsecond =>
      rw [hrequest] at hlogin
      cases hlogin
      have hfactor := hadmitted.factor.mono hl
      refine ⟨rfl, rfl, user, method, passwordResult_accountId ..,
        reads_of_given hkeyed h hcall hfactor.given, hfactor, hadmitted.usable.mono hl,
        fun hconfirmed => ?_, passwordResult_acr ..⟩
      exact spends_of_secondFactor hkeyed h hcall hconfirmed (hsecond.mono hl)
  case tried =>
    intro n call l x l' hcall hlog hkind
    have hperformed := hspec.performed h hcall hlog
    obtain ⟨op, res, before, after⟩ := x
    cases op with
    | account op =>
      cases op with
      | consumeTotpStep realm id step =>
        obtain ⟨uid, form, user, method, hrequest, rfl, -, hadmitted⟩ := hperformed
        exact ⟨realm, uid, form, user, method, hrequest, hadmitted.factor, hadmitted.usable,
          .inl ⟨step, rfl⟩⟩
      | consumeRecoveryCode realm id digest =>
        obtain ⟨uid, form, user, method, hrequest, rfl, -, hadmitted⟩ := hperformed
        exact ⟨realm, uid, form, user, method, hrequest, hadmitted.factor, hadmitted.usable,
          .inr ⟨digest, rfl⟩⟩
      | _ => cases hkind
    | _ => cases hkind
  case codes => exact codes_run

/-- A user with a second factor and one recovery code. -/
def secondUser : User :=
  { someUser with totpSecret := some "totp", totpConfirmed := true, recoveryCodeHashes := ["code"] }

/-- Ada logs in with a password and a recovery code. -/
theorem password_login_recovery : ∃ p call, p.calls 0 = some call ∧
    call.program = .done (.finished ⟨"ada", "urn:authme:loa:2", ["pwd", "recovery"]⟩) ∧
      PasswordLaw someConfig p := by
  have h : Transition.exec (Service.step (routes someConfig)) Always
      (.initial (.initial ⟨2000, by omega⟩ (OrderedMap.empty.set ("master", "ada") secondUser) .empty))
      [.start (.login "master" "uid" ⟨"ada", "secret", some "code"⟩), .resume 0 .none,
        .resume 0 .none, .resume 0 .none, .resume 0 .none, .resume 0 .none, .resume 0 .none] =
      some (_, _) := rfl
  refine ⟨_, _, rfl, rfl, password_login ?_ (.of_exec h)⟩
  intro key u hu
  rw [State.initial, OrderedMap.get?_set] at hu
  split at hu
  · cases hu; assumption
  · cases hu

end AuthMe.Login

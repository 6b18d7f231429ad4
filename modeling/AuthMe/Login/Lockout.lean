import AuthMe.Login.Federation
import AuthMe.Login.Password

/-!
# Locks in a run

A request decides on the record of the user that it was given, and an account can be locked
while the request is under way: the request then finishes the login of a locked account and
clears the lock (`lockout_counterexample`). A completion handle does the same over two
requests.

What is needed is that an account is locked only while no other request for it is under way
and no completion handle for it is outstanding (`Undisturbed`). In a run in which every step
meets this, no login is finished or recorded as a success while the account is locked, and
a success clears no lock that was set after the request was given the user
(`lockout_of_undisturbed`).
-/

namespace AuthMe.Login

open Service Store
open Transition (Run Always)

variable {cfg : Config} {p p' : Pool} {tr : Trace} {s s' : State}
  {e : Event Request Choice Change} {o : Output operations State}

/-! ## Locks -/

def State.Unlocked (s : State) (key : UserKey) : Prop :=
  ∀ u, s.accounts.users.get? key = some u → u.isLocked s.clock = false

/-- The event locks the account. -/
def Locks (p : Pool) (e : Event Request Choice Change) (key : UserKey) : Prop :=
  PerformsNow p e (.account (.recordLoginFailure key.1 key.2)) ∧
    ∃ u, p.store.accounts.users.get? key = some u ∧ u.isLocked p.store.clock = false ∧
      (u.recordLoginFailure p.store.clock).isLocked p.store.clock = true

theorem isLocked_of_le {u u' : User} {now now' : Instant} (h : u.isLocked now = false)
    (hle : now.ms ≤ now'.ms) (hlock : u'.lockedUntil = u.lockedUntil ∨ u'.lockedUntil = none) :
    u'.isLocked now' = false := by
  unfold User.isLocked at h ⊢
  rcases hlock with hlock | hlock <;> rw [hlock]
  cases hu : u.lockedUntil with
  | none => rfl
  | some t =>
    simp only [hu, decide_eq_false_iff_not] at h ⊢
    omega

/-- A failure leaves the lock alone, takes off one that is over, or locks the account. -/
theorem recordLoginFailure_lock (u : User) (now : Instant) :
    (u.recordLoginFailure now).lockedUntil = u.lockedUntil ∨
      (u.recordLoginFailure now).lockedUntil = none ∨
      u.isLocked now = false ∧ (u.recordLoginFailure now).isLocked now = true := by
  unfold User.recordLoginFailure
  split
  · exact .inl rfl
  · rename_i hfree
    refine .inr ?_
    by_cases hattempts : 5 ≤ (if u.lockedUntil.isSome then 0 else u.failedAttempts) + 1
    · refine .inr ⟨by simpa using hfree, ?_⟩
      simp only [User.isLocked, hattempts, if_true, User.lockTime, decide_eq_true_eq]
      omega
    · exact .inl (by simp only [hattempts, if_false])

/-- What a step does to the lock of an account. -/
theorem lock_step (h : Service.step (routes cfg) p e = some (p', o)) {key : UserKey}
    (hlocks : ¬ Locks p e key) {u' : User} (hu' : p'.store.accounts.users.get? key = some u') :
    u'.lockedUntil = none ∨ ∃ u, p.store.accounts.users.get? key = some u ∧
      u'.lockedUntil = u.lockedUntil := by
  have hrow := step_row h key
  rw [hu'] at hrow
  generalize hu : p.store.accounts.users.get? key = row at hrow
  cases hrow with
  | same => exact .inr ⟨u', rfl, rfl⟩
  | @factor u _ c happly _ => exact .inr ⟨u, rfl, (factor_frame happly).2.2.2⟩
  | failure u hnow =>
    rcases recordLoginFailure_lock u p.store.clock with hsame | hnone | hnew
    · exact .inr ⟨u, rfl, hsame⟩
    · exact .inl hnone
    · exact absurd ⟨hnow, u, hu, hnew⟩ hlocks
  | success u => exact .inl rfl
  | rehash u => exact .inr ⟨u, rfl, rfl⟩
  | unlock u => exact .inl rfl
  | bump u => exact .inr ⟨u, rfl, rfl⟩
  | profile u => exact .inr ⟨u, rfl, rfl⟩
  | created _ hlock _ => exact .inl hlock

theorem unlocked_step (h : Service.step (routes cfg) p e = some (p', o)) {key : UserKey}
    (hlocks : ¬ Locks p e key) (hp : p.store.Unlocked key) : p'.store.Unlocked key := by
  intro u' hu'
  rcases lock_step h hlocks hu' with hnone | ⟨u, hu, hsame⟩
  · simp [User.isLocked, hnone]
  · exact isLocked_of_le (hp u hu) (clock_step h) (.inl hsame)

/-! ## The condition -/

/-- A call that has neither returned nor ended with an error; `errors` tells after how many operations
a call ends with one, if it does. -/
structure Active (errors : Nat → Option Nat) (n : Nat) (call : Call) : Prop where
  returns : ∀ reply, call.program ≠ .done reply
  ends : errors n ≠ some call.log.length

/-- Another call than that of the event is under way, and it was given the account or has found a
completion for it. -/
def UnderWay (errors : Nat → Option Nat) (p : Pool) (e : Event Request Choice Change)
    (key : UserKey) : Prop :=
  ∃ n call, p.calls n = some call ∧ Active errors n call ∧
    (∀ choice, e ≠ .resume n choice) ∧ ((∃ user, Given call.log key.1 user ∧ user.id = key.2) ∨
      ∃ handle r, Answered (I := operations) call.log (.artifact (.findState key.1 handle)) (some r) ∧
        r.payload.accountId? = some key.2)

/-- A completion handle of the account can still be used. -/
def Outstanding (s : State) (key : UserKey) : Prop :=
  ∃ handle r, s.artifacts.states.get? (key.1, handle) = some r ∧
    r.payload.accountId? = some key.2 ∧ r.live s.clock = true ∧ r.consumed = false

/-- A call that has ended with an error does nothing more, and an account is locked only while nobody
else is logging in to it. -/
structure Undisturbed (errors : Nat → Option Nat) (p : Pool) (e : Event Request Choice Change) :
    Prop where
  resumes : ∀ {n choice call}, e = .resume n choice → p.calls n = some call →
    errors n ≠ some call.log.length
  locks : ∀ key, Locks p e key → ¬ UnderWay errors p e key ∧ ¬ Outstanding p.store key

/-! ## The invariant -/

/-- What the calls that are under way and the completion handles rely on. -/
structure Guarded (errors : Nat → Option Nat) (p : Pool) : Prop where
  outstanding : ∀ {key}, Outstanding p.store key → p.store.Unlocked key
  given : ∀ {n call realm user u}, p.calls n = some call → Active errors n call →
    Free Op.isFailure call.log → Given call.log realm user →
    p.store.accounts.users.get? (realm, user.id) = some u →
    u.lockedUntil = none ∨ u.lockedUntil = user.lockedUntil
  taken : ∀ {n call realm handle r id}, p.calls n = some call → Active errors n call →
    Free Op.isFailure call.log →
    Answered (I := operations) call.log (.artifact (.findState realm handle)) (some r) →
    Answered (I := operations) call.log (.artifact (.consumeState realm handle)) true →
    r.payload.accountId? = some id → p.store.Unlocked (realm, id)

section Run

variable {clock : Instant} {users : Users} {credentials : OrderedMap (String × String) Credential}
  {errors : Nat → Option Nat}

/-- Only logins with a form record failures. -/
theorem free_failure {s₀ : State} {G : Pool → Event Request Choice Change → Prop}
    (h : Run (Service.step (routes cfg)) G (.initial s₀) tr p) {n : Nat} {call : Call}
    (hcall : p.calls n = some call) (hrequest : ∀ realm uid form, call.request ≠ .login realm uid form) :
    Free Op.isFailure call.log := by
  intro x hx
  obtain ⟨l, l', hlog⟩ := List.append_of_mem hx
  have hperformed := (routes_spec cfg).performed h hcall hlog
  obtain ⟨op, res, before, after⟩ := x
  cases op with
  | account op =>
    cases op with
    | recordLoginFailure realm id =>
      obtain ⟨uid, form, user, hlogin, -⟩ := hperformed
      exact absurd hlogin (hrequest _ _ _)
    | _ => rfl
  | _ => rfl

/-- The clock that a call has read is past. -/
theorem time_le {s₀ : State} (h : Run (Service.step (routes cfg)) Always (.initial s₀) tr p) {n : Nat}
    {call : Call} (hcall : p.calls n = some call) {time : Instant}
    (ha : Answered (I := operations) call.log .now time) : time.ms ≤ p.store.clock.ms := by
  obtain ⟨before, after, hmem⟩ := ha
  obtain ⟨t₁, t₂, choice, m, m', -, -, -, -, hstep, -, -, hanswer, hm'⟩ := Run.made h hcall hmem
  have htime : time = m.store.clock := (congrArg Prod.fst (Option.some.inj hanswer)).symm
  have hrest : m'.store.clock.ms ≤ p.store.clock.ms :=
    hm'.relates (R := fun q q' => q.store.clock.ms ≤ q'.store.clock.ms) (fun _ => Int.le_refl _)
      (fun _ _ _ => Int.le_trans) (fun _ _ _ _ _ hstep => clock_step hstep)
  rw [htime]
  exact Int.le_trans (clock_step hstep) hrest

/-- An account that a call was given unlocked is not locked while the call is under way. -/
theorem Guarded.unlocked {s₀ : State} (hp : Guarded errors p)
    (h : Run (Service.step (routes cfg)) Always (.initial s₀) tr p) {n : Nat} {call : Call}
    (hcall : p.calls n = some call) (hactive : Active errors n call)
    (hfree : Free Op.isFailure call.log) {realm : String} {user : User}
    (hgiven : Given call.log realm user) (husable : Usable call.log user) :
    p.store.Unlocked (realm, user.id) := by
  intro u hu
  obtain ⟨time, htime, hunlocked⟩ := husable.unlocked
  have hlock := hp.given hcall hactive hfree hgiven hu
  exact isLocked_of_le hunlocked (time_le h hcall htime) hlock.symm

/-- An event performs one operation. -/
theorem PerformsNow.unique {op op' : Op} (h : PerformsNow p e op) (h' : PerformsNow p e op') :
    op = op' := by
  obtain ⟨n, choice, call, next, rfl, hcall, hprogram⟩ := h
  obtain ⟨n', choice', call', next', he, hcall', hprogram'⟩ := h'
  cases he
  cases hcall.symm.trans hcall'
  cases hprogram.symm.trans hprogram'
  rfl

theorem not_locks {op : Op} (h : PerformsNow p e op) (hop : op.isFailure = false) {key : UserKey} :
    ¬ Locks p e key := by
  rintro ⟨hfailure, -⟩
  rw [h.unique hfailure] at hop
  cases hop

theorem Upstream.not_login {request : Request} {log : Log} {realm providerId : String}
    {extension : Extension} {result : FederationResult}
    (h : Upstream cfg request log realm providerId extension result) (realm' uid : String)
    (form : LoginForm) : request ≠ .login realm' uid form := by
  rintro rfl
  cases h with
  | oidc hrequest => cases hrequest
  | saml hrequest => cases hrequest

theorem Resolves.given {realm : String} {log : Log} {result : FederationResult} {user : User}
    (h : Resolves realm log result user) : Given log realm user := by
  obtain ⟨status, -, ha⟩ := h.resolved
  exact ⟨_, _, .resolved _ _ _, ha⟩

/-- A record that is consumed was fit for use. -/
theorem fit_of_consumeState {choice : Choice} {realm id : String}
    (h : (routes cfg).answer s choice (.artifact (.consumeState realm id)) = some (true, s')) :
    ∃ r, s.artifacts.states.get? (realm, id) = some r ∧ r.live s.clock = true ∧
      r.consumed = false := by
  change answer cfg s choice (.artifact (.consumeState realm id)) = some (true, s') at h
  cases answer_cases h with
  | artifact hartifacts =>
    simp only [Artifacts.answer] at hartifacts
    split at hartifacts
    · cases hartifacts
    · rename_i r hr
      split at hartifacts <;> cases hartifacts
      rename_i hfit
      simp only [Bool.and_eq_true, Bool.not_eq_true'] at hfit
      exact ⟨r, hr, hfit⟩

theorem Guarded.step (hkeyed : Keyed users)
    (hrun : Run (Service.step (routes cfg)) (Undisturbed errors)
      (.initial (.initial clock users credentials)) tr p)
    (hp : Guarded errors p) (hquiet : Undisturbed errors p e)
    (h : Service.step (routes cfg) p e = some (p', o)) : Guarded errors p' := by
  have hclock := clock_step h
  have hspec := routes_spec cfg
  have hresumed : ∀ {n choice call op next}, e = .resume n choice → p.calls n = some call →
      call.program = .await op next → Active errors n call := by
    intro n choice call op next he hcall hprogram
    exact ⟨by simp [hprogram], hquiet.resumes he hcall⟩
  constructor
  case outstanding =>
    rintro key ⟨handle, r, hr, haccount, hlive, hfree⟩
    cases step_state h (key.1, handle) with
    | same hsame =>
      have hold : Outstanding p.store key := by
        refine ⟨handle, r, hsame ▸ hr, haccount, ?_, hfree⟩
        simp only [StateRecord.live, decide_eq_true_eq] at hlive ⊢
        omega
      exact unlocked_step h (fun hlocks => (hquiet.locks key hlocks).2 hold) (hp.outstanding hold)
    | @saved n choice call payload version expiresIn next he hcall hprogram _ hrecord =>
      cases hrecord.symm.trans hr
      obtain ⟨-, -, hsaves⟩ := hspec.performs hrun hcall hprogram
      have hnow : PerformsNow p e (.artifact (.saveState key.1 handle payload version expiresIn)) :=
        ⟨n, choice, call, next, he, hcall, hprogram⟩
      dsimp only at haccount hsaves
      cases hsaves with
      | initiate => cases haccount
      | completion hupstream hresolves _ =>
        have hunlocked := hp.unlocked hrun.always hcall (hresumed he hcall hprogram)
          (free_failure hrun hcall hupstream.not_login) hresolves.given hresolves.usable
        dsimp only [Payload.accountId?] at haccount
        rw [Option.some.inj haccount] at hunlocked
        exact unlocked_step h (not_locks hnow rfl) hunlocked
    | taken _ htaken =>
      cases htaken.symm.trans hr
      cases hfree
    | dropped hgone => simp [hgone] at hr
  case given =>
    intro n call realm user u hcall hactive hfree hgiven hu
    -- the lock of an account that was given before
    have hold : ∀ old, p.calls n = some old → Active errors n old →
        Free Op.isFailure old.log → Given old.log realm user →
        ¬ Locks p e (realm, user.id) → u.lockedUntil = none ∨ u.lockedUntil = user.lockedUntil := by
      intro old hcall' hactive' hfree' hgiven' hlocks
      rcases lock_step h hlocks hu with hnone | ⟨w, hw, hsame⟩
      · exact .inl hnone
      · rw [hsame]
        exact hp.given hcall' hactive' hfree' hgiven' hw
    cases (step_move h).became hcall with
    | start _ _ hnew =>
      subst hnew
      obtain ⟨_, _, -, _, _, hmem⟩ := hgiven
      cases hmem
    | same hcall' he =>
      refine hold call hcall' hactive hfree hgiven fun hlocks => (hquiet.locks _ hlocks).1 ?_
      exact ⟨n, call, hcall', hactive, he, .inl ⟨user, hgiven, rfl⟩⟩
    | @reply old op next res hcall' hprogram hanswer hnew he =>
      subst hnew
      obtain ⟨choice, he⟩ := he
      have hnow : PerformsNow p e op := ⟨n, choice, old, next, he, hcall', hprogram⟩
      obtain ⟨hop, hfree'⟩ := List.forall_mem_cons.mp hfree
      obtain ⟨op', res', hgives, before, after, hmem⟩ := hgiven
      rcases List.mem_cons.mp hmem with heq | hmem
      · cases heq
        obtain ⟨choice', hanswer⟩ := hanswer
        have hkeyed' : Keyed p.store.accounts.users := keyed_run hkeyed hrun.always
        change answer cfg p.store choice' (.account op') = some (res', p'.store) at hanswer
        generalize p'.store = s' at hanswer hu
        cases answer_cases hanswer with
        | account haccounts =>
          cases (stored_of_gives hkeyed' hgives haccounts).symm.trans hu
          exact .inr rfl
      · exact hold old hcall' (hresumed he hcall' hprogram) hfree'
          ⟨op', res', hgives, before, after, hmem⟩ (not_locks hnow hop)
  case taken =>
    intro n call realm handle r id hcall hactive hfree hfound htaken haccount
    cases (step_move h).became hcall with
    | start _ _ hnew =>
      subst hnew
      obtain ⟨_, _, hmem⟩ := hfound
      cases hmem
    | same hcall' he =>
      refine unlocked_step h (fun hlocks => (hquiet.locks _ hlocks).1 ?_)
        (hp.taken hcall' hactive hfree hfound htaken haccount)
      exact ⟨n, call, hcall', hactive, he, .inr ⟨handle, r, hfound, haccount⟩⟩
    | @reply old op next res hcall' hprogram hanswer hnew he =>
      subst hnew
      obtain ⟨choice, he⟩ := he
      have hnow : PerformsNow p e op := ⟨n, choice, old, next, he, hcall', hprogram⟩
      obtain ⟨hop, hfree'⟩ := List.forall_mem_cons.mp hfree
      refine unlocked_step h (not_locks hnow hop) ?_
      obtain ⟨before, after, hfound⟩ := hfound
      obtain ⟨before', after', htaken⟩ := htaken
      rcases List.mem_cons.mp hfound with heq | hfound'
      · -- a request that looks for a record has done nothing before
        cases heq
        have hempty : old.log = [] := hspec.performs hrun hcall' hprogram
        rcases List.mem_cons.mp htaken with heq' | htaken'
        · cases heq'
        · simp [hempty] at htaken'
      · rcases List.mem_cons.mp htaken with heq | htaken'
        · cases heq
          obtain ⟨choice', hanswer⟩ := hanswer
          obtain ⟨r', hr', hlive, hunused⟩ := fit_of_consumeState hanswer
          obtain ⟨k, hsaved⟩ := (states_run hrun.always).stored hr'
          obtain ⟨k', hsaved'⟩ := found_saved hrun.always hcall' ⟨before, after, hfound'⟩
          obtain ⟨-, -, -, hpayload, -⟩ := hsaved.unique hrun.always hsaved' (.inl rfl)
          exact hp.outstanding ⟨handle, r', hr', by rw [hpayload, haccount], hlive, hunused⟩
        · exact hp.taken hcall' (hresumed he hcall' hprogram) hfree' ⟨before, after, hfound'⟩
            ⟨before', after', htaken'⟩ haccount

theorem guarded_run (hkeyed : Keyed users)
    (h : Run (Service.step (routes cfg)) (Undisturbed errors)
      (.initial (.initial clock users credentials)) tr p) : Guarded errors p := by
  refine h.along (I := fun p _ => Guarded errors p) ?_ ⟨?_, nofun, nofun⟩
  · intro m tr e m' o hrun hm hquiet hstep
    exact hm.step hkeyed hrun hquiet hstep
  · rintro key ⟨handle, r, hr, -⟩
    cases hr

/-! ## The law -/

/-- A login that is about to be recorded as a success or finished is that of an account that is
not locked, and whose lock, if there is one, was there when the request was given the user. -/
structure Enforced (errors : Nat → Option Nat) (p : Pool) : Prop where
  success : ∀ {n call realm id next}, p.calls n = some call → errors n ≠ some call.log.length →
    call.program = .await (.account (.recordLoginSuccess realm id)) next →
    p.store.Unlocked (realm, id) ∧ ∃ user, Given call.log realm user ∧ user.id = id ∧
      ∀ u, p.store.accounts.users.get? (realm, id) = some u →
        u.lockedUntil = none ∨ u.lockedUntil = user.lockedUntil
  finished : ∀ {n call realm uid result next}, p.calls n = some call →
    errors n ≠ some call.log.length → call.program = .await (.interactionFinished realm uid result) next →
    p.store.Unlocked (realm, result.accountId)

theorem Verified.given {realm uid challengeId : String} {assertion : Assertion} {log : Log}
    {challenge : Challenge} {credential : Credential} {user : User} {verification : Verification}
    (h : Verified cfg realm uid challengeId assertion log challenge credential user verification) :
    Given log realm user :=
  ⟨_, _, .id _, h.read⟩

theorem Succeeds.given {request : Request} {log : Log} {realm : String} {user : User}
    (h : Succeeds cfg request log realm user) : Given log realm user ∧ Usable log user := by
  cases h with
  | login _ hadmitted _ => exact ⟨hadmitted.factor.given, hadmitted.usable⟩
  | passkey _ hok =>
    obtain ⟨_, _, _, hverified, -⟩ := hok.verified
    exact ⟨hverified.given, hverified.usable⟩
  | federated _ hresolves => exact ⟨hresolves.given, hresolves.usable⟩

/-- **Locks are enforced** in a run in which accounts are locked only while nobody else is logging
in to them. -/
theorem lockout_of_undisturbed (hkeyed : Keyed users)
    (h : Run (Service.step (routes cfg)) (Undisturbed errors)
      (.initial (.initial clock users credentials)) tr p) : Enforced errors p := by
  have hguarded := guarded_run hkeyed h
  have hspec := routes_spec cfg
  constructor
  case success =>
    intro n call realm id next hcall hends hprogram
    obtain ⟨hfree, user, rfl, hsucceeds⟩ := hspec.performs h hcall hprogram
    obtain ⟨hgiven, husable⟩ := hsucceeds.given
    have hactive : Active errors n call := ⟨by simp [hprogram], hends⟩
    exact ⟨hguarded.unlocked h.always hcall hactive hfree hgiven husable, user, hgiven, rfl,
      fun u hu => hguarded.given hcall hactive hfree hgiven hu⟩
  case finished =>
    intro n call realm uid result next hcall hends hprogram
    have hactive : Active errors n call := ⟨by simp [hprogram], hends⟩
    obtain ⟨hfree, hfinishes⟩ := hspec.performs h hcall hprogram
    cases hfinishes with
    | @login form user method recoveryUsed _ hadmitted _ =>
      rw [passwordResult_accountId]
      exact hguarded.unlocked h.always hcall hactive hfree hadmitted.factor.given hadmitted.usable
    | passkey _ hok =>
      obtain ⟨_, _, _, hverified, -⟩ := hok.verified
      exact hguarded.unlocked h.always hcall hactive hfree hverified.given hverified.usable
    | complete _ hconsumed _ _ =>
      obtain ⟨r, hpayload, -, hfound⟩ := hconsumed.found
      exact hguarded.taken hcall hactive hfree hfound hconsumed.consumed (by rw [hpayload]; rfl)

/-- The step records a failure. -/
def showsFailure (x : Event Request Choice Change × Output operations State) : Bool :=
  match x.2 with
  | .replied _ entry => entry.op.isFailure
  | _ => false

/-- Where no failure is recorded, no account is locked. -/
theorem undisturbed_of_no_failure (h : Run (Service.step (routes cfg)) Always p tr p')
    (hnone : tr.any showsFailure = false) :
    Run (Service.step (routes cfg)) (Undisturbed fun _ => none) p tr p' := by
  induction h with
  | nil => exact .nil _
  | @cons p p₁ p' e o tr _ hstep _ ih =>
    simp only [List.any_cons, Bool.or_eq_false_iff] at hnone
    refine .cons ⟨fun _ _ => by simp, ?_⟩ hstep (ih hnone.2)
    rintro key ⟨⟨n, choice, call, next, rfl, hcall, hprogram⟩, -⟩
    cases step_move hstep with
    | @reply _ _ call' op next' res s hcall' hprogram' _ =>
      cases hcall.symm.trans hcall'
      cases hprogram.symm.trans hprogram'
      cases hnone.1

/-- A call that is alone disturbs nobody. -/
theorem undisturbed_of_alone {n : Nat} {choice : Choice}
    (hcalls : ∀ m call, p.calls m = some call → m = n)
    (hstates : ∀ id, p.store.artifacts.states.get? id = none) :
    Undisturbed (fun _ => none) p (.resume n choice) := by
  refine ⟨fun _ _ => by simp, fun key _ => ⟨?_, ?_⟩⟩
  · rintro ⟨m, call, hcall, -, hother, -⟩
    exact hother choice (by rw [hcalls m call hcall])
  · rintro ⟨handle, r, hr, -⟩
    rw [hstates] at hr
    cases hr

/-! ## Runs -/

/-- A user with four failed attempts. -/
def tiredUser : User := { someUser with failedAttempts := 4 }

def tiredUsers : Users := OrderedMap.empty.set ("master", "ada") tiredUser

theorem keyed_tiredUsers : Keyed tiredUsers := by
  intro key u hu
  rw [tiredUsers, OrderedMap.get?_set] at hu
  split at hu
  · cases hu; assumption
  · cases hu

def tiredState : State := .initial someState.clock tiredUsers .empty

/-- The fifth failure locks the account while nobody else is logging in, and the next login is refused
although the password is right. -/
theorem lockout_of_undisturbed_login : ∃ tr p call call',
    Run (Service.step (routes someConfig)) (Undisturbed fun _ => none) (.initial tiredState) tr p ∧
      p.calls 0 = some call ∧ call.request = .login "master" "uid" ⟨"ada", "wrong", none⟩ ∧
      call.log.head?.map (fun x => x.op) =
        some (.account (.recordLoginFailure "master" "ada")) ∧
      p.calls 1 = some call' ∧ call'.request = .login "master" "uid" ⟨"ada", "secret", none⟩ ∧
      call'.program = .done .failed ∧ ¬ p.store.Unlocked ("master", "ada") ∧
      Enforced (fun _ => none) p := by
  obtain ⟨p₁, os₁, p₂, os₂, p₃, os₃, call, call', h₁, h₂, h₃, hnone₁, hnone₃, hcalls, hstates, hcall,
      hrequest, hlog, hcall', hrequest', hrefused, u, hu, hlocked⟩ :
      ∃ p₁ os₁ p₂ os₂ p₃ os₃ call call',
        Transition.exec (Service.step (routes someConfig)) Always (.initial tiredState)
          [.start (.login "master" "uid" ⟨"ada", "wrong", none⟩), .resume 0 .none, .resume 0 .none] =
            some (p₁, os₁) ∧
        Service.step (routes someConfig) p₁ (.resume 0 .none) = some (p₂, os₂) ∧
        Transition.exec (Service.step (routes someConfig)) Always p₂
          [.start (.login "master" "uid" ⟨"ada", "secret", none⟩), .resume 1 .none, .resume 1 .none] =
            some (p₃, os₃) ∧
        (([.start (.login "master" "uid" ⟨"ada", "wrong", none⟩), .resume 0 .none,
          .resume 0 .none] : List (Event Request Choice Change)).zip os₁).any showsFailure = false ∧
        (([.start (.login "master" "uid" ⟨"ada", "secret", none⟩), .resume 1 .none,
          .resume 1 .none] : List (Event Request Choice Change)).zip os₃).any showsFailure = false ∧
        (∀ m call, p₁.calls m = some call → m = 0) ∧
        (∀ id, p₁.store.artifacts.states.get? id = none) ∧
        p₃.calls 0 = some call ∧
        call.request = .login "master" "uid" ⟨"ada", "wrong", none⟩ ∧
        call.log.head?.map (fun x => x.op) =
          some (.account (.recordLoginFailure "master" "ada")) ∧
        p₃.calls 1 = some call' ∧
        call'.request = .login "master" "uid" ⟨"ada", "secret", none⟩ ∧
        call'.program = .done .failed ∧
        ∃ u, p₃.store.accounts.users.get? ("master", "ada") = some u ∧
          u.isLocked p₃.store.clock = true := by
    refine ⟨_, _, _, _, _, _, _, _, rfl, rfl, rfl, rfl, rfl, ?_, fun _ => rfl, rfl, rfl, rfl, rfl, rfl,
      rfl, _, rfl, by decide⟩
    intro m call hcall
    by_contra hne
    simp [Pool.set, Pool.initial, Function.update_of_ne hne] at hcall
  have hrun := ((undisturbed_of_no_failure (.of_exec h₁) hnone₁).append
    (.single (undisturbed_of_alone hcalls hstates) h₂)).append
      (undisturbed_of_no_failure (.of_exec h₃) hnone₃)
  refine ⟨_, p₃, call, call', hrun, hcall, hrequest, hlog, hcall', hrequest', hrefused, ?_,
    lockout_of_undisturbed keyed_tiredUsers hrun⟩
  intro hunlocked
  rw [hunlocked u hu] at hlocked
  cases hlocked

/-- The account is locked while a login with the right password is under way; the login is
finished nevertheless, and the lock is gone. -/
theorem lockout_counterexample : ∃ tr p call next t p' call',
    Run (Service.step (routes someConfig)) Always (.initial tiredState) tr p ∧
      p.calls 0 = some call ∧
      call.program = .await (.account (.recordLoginSuccess "master" "ada")) next ∧
      ¬ p.store.Unlocked ("master", "ada") ∧ Run (Service.step (routes someConfig)) Always p t p' ∧
      p'.calls 0 = some call' ∧
      call'.program = .done (.finished ⟨"ada", "urn:authme:loa:1", ["pwd"]⟩) ∧
      (p'.store.accounts.users.get? ("master", "ada")).map User.lockedUntil = some none := by
  obtain ⟨p, os, p', os', h, h', call, next, call', hcall, hprogram, hlocked, hcall', hdone, hclear⟩ :
      ∃ p os p' os', Transition.exec (Service.step (routes someConfig)) Always (.initial tiredState)
        [.start (.login "master" "uid" ⟨"ada", "secret", none⟩), .resume 0 .none, .resume 0 .none,
          .start (.login "master" "other" ⟨"ada", "guess", none⟩), .resume 1 .none, .resume 1 .none,
          .resume 1 .none] = some (p, os) ∧
        Transition.exec (Service.step (routes someConfig)) Always p
          [.resume 0 .none, .resume 0 .none] = some (p', os') ∧
        ∃ call next call', p.calls 0 = some call ∧
          call.program = .await (.account (.recordLoginSuccess "master" "ada")) next ∧
          ¬ p.store.Unlocked ("master", "ada") ∧ p'.calls 0 = some call' ∧
          call'.program = .done (.finished ⟨"ada", "urn:authme:loa:1", ["pwd"]⟩) ∧
          (p'.store.accounts.users.get? ("master", "ada")).map User.lockedUntil = some none := by
    refine ⟨_, _, _, _, rfl, rfl, _, _, _, rfl, rfl, fun hunlocked => ?_, rfl, rfl, rfl⟩
    exact absurd (hunlocked _ rfl) (by decide)
  exact ⟨_, p, call, next, _, p', call', .of_exec h, hcall, hprogram, hlocked, .of_exec h', hcall',
    hdone, hclear⟩

end Run

end AuthMe.Login

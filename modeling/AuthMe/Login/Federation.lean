import AuthMe.Login.Saml
import AuthMe.Login.States

/-!
# Federated logins in a run

What holds in every run of the login routes (`federated_login`): a login that `complete`
finishes goes back over its completion handle to one callback, and over the state or RelayState
of that callback to the request that has initiated it (`FederatedLogin`). The callback is the only
one that has used the state or RelayState up, and it has asked the provider once. Handles, states
and RelayStates are used once, so each of them contributes to at most one finished login.

The security version of the account is the same from the moment at which the callback has read
it, after it has resolved the account, to the moment at which `complete` has read it. The
version of the record that was resolved can be older (`resolved_version_counterexample`).
-/

namespace AuthMe.Login

open Service Store
open Transition (Run Always)

variable {cfg : Config} {p p' : Pool} {tr : Trace} {s₀ : State}

/-! ## The links of a federated login -/

/-- What an answer of an upstream provider has to be bound to. -/
inductive Ticket
  | state (realm id : String)
  | relayState (key : ReplayKey)
  deriving DecidableEq

/-- The request is one of the routes: the brokers' methods are called by them only. -/
def Request.isRoute : Request → Bool
  | .start .. | .consumePost .. => false
  | _ => true

/-- The event starts no method of a broker by itself. -/
def Routed (_ : Pool) : Event Request Choice Change → Prop
  | .start r => r.isRoute = true
  | _ => True

instance (p : Pool) : (e : Event Request Choice Change) → Decidable (Routed p e)
  | .start r => inferInstanceAs (Decidable (r.isRoute = true))
  | .resume _ _ | .change _ => .isTrue trivial

/-- The ticket that a callback presents. -/
def Request.ticket? : Request → Option Ticket
  | .callback realm _ query => some (.state realm query.state)
  | .acs realm providerId _ relayState => some (.relayState ⟨realm, providerId, .state, relayState⟩)
  | _ => none

/-- The call has used up the ticket. -/
def TicketTaken (p : Pool) (k : Nat) : Ticket → Prop
  | .state realm id => Takes p k realm id
  | .relayState key => ∃ value, Uses p k key value

/-- The call `j` has initiated the interaction at the provider and has stored the ticket, before
the call `k` has used it up. -/
inductive Issues (cfg : Config) (tr : Trace) (p : Pool) (j k : Nat)
    (realm providerId uid : String) : Extension → Ticket → Prop
  | oidc {call : Call} {id nonce codeVerifier : String} {expiresIn : Int}
      (hcall : p.calls j = some call) (hrequest : call.request = .initiate realm uid .oidc providerId)
      (hbefore : Precedes tr j (.artifact (.saveState realm id (.oidc ⟨providerId, uid,
          cfg.callbackUrl realm .oidc providerId, nonce, codeVerifier⟩) none expiresIn))
        k (.artifact (.consumeState realm id))) :
      Issues cfg tr p j k realm providerId uid .oidc (.state realm id)
  | saml {call : Call} {relayState requestId : String} {ttlMs : Int}
      (hcall : p.calls j = some call) (hrequest : call.request = .initiate realm uid .saml providerId)
      (hbefore : Precedes tr j (.artifact (.putIfAbsent ⟨realm, providerId, .state, relayState⟩
          (.pending ⟨realm, providerId, uid, requestId⟩) ttlMs))
        k (.artifact (.consume ⟨realm, providerId, .state, relayState⟩))) :
      Issues cfg tr p j k realm providerId uid .saml
        (.relayState ⟨realm, providerId, .state, relayState⟩)

def State.version? (s : State) (key : UserKey) : Option Nat :=
  (s.accounts.users.get? key).map User.securityVersion

/-- From the lookup of the version by `k` to the one by `n`, the account has this version. -/
def Steady (cfg : Config) (tr : Trace) (k n : Nat) (key : UserKey) (version : Nat) : Prop :=
  ∃ t₁ t₂ t₃ choice choice' x y q q', tr = t₁ ++ (.resume k choice, .replied k x) ::
    (t₂ ++ (.resume n choice', .replied n y) :: t₃) ∧
    x.op = .account (.securityVersionFor key.1 key.2) ∧
    y.op = .account (.securityVersionFor key.1 key.2) ∧
    Run (Service.step (routes cfg)) Always q t₂ q' ∧
    ∀ u₁ u₂ q₁, t₂ = u₁ ++ u₂ → Run (Service.step (routes cfg)) Always q u₁ q₁ →
      Run (Service.step (routes cfg)) Always q₁ u₂ q' → q₁.store.version? key = some version

/-- The call `n` finishes the interaction with the handle that `k` has issued, for the user that
`k` has resolved from the answer to the ticket of `j`. -/
structure FederatedLogin (cfg : Config) (tr : Trace) (p : Pool) (n k j : Nat)
    (realm uid providerId handle : String) (extension : Extension) (ticket : Ticket) (user : User)
    (version : Nat) : Prop where
  issued : Issues cfg tr p j k realm providerId uid extension ticket
  validated : ∃ call result, p.calls k = some call ∧ call.request.ticket? = some ticket ∧
    TicketTaken p k ticket ∧ Upstream cfg call.request call.log realm providerId extension result ∧
    result.interactionUid = uid ∧ Resolves realm call.log result user
  saved : ∃ amr acr expiresIn, Precedes tr k (.artifact (.saveState realm handle (.completion
      ⟨realm, extension, providerId, uid, user.id, amr, acr⟩) (some version) expiresIn))
    n (.artifact (.consumeState realm handle)) ∧ Saved p k realm handle (.completion
      ⟨realm, extension, providerId, uid, user.id, amr, acr⟩) (some version)
  completed : ∃ call, p.calls n = some call ∧ call.request = .complete realm uid handle ∧
    Takes p n realm handle
  steady : Steady cfg tr k n (realm, user.id) version

/-- What holds of the federated logins of a run. -/
structure FederationLaw (cfg : Config) (tr : Trace) (p : Pool) : Prop where
  /-- A login that is finished goes back to a callback and to the request that initiated it. -/
  bound : ∀ {n call realm uid handle realm' uid' result}, p.calls n = some call →
    call.request = .complete realm uid handle →
    Answered (I := operations) call.log (.interactionFinished realm' uid' result) () →
    realm' = realm ∧ uid' = uid ∧ ∃ k j providerId extension ticket user version,
      result.accountId = user.id ∧ FederatedLogin cfg tr p n k j realm uid providerId handle
        extension ticket user version
  /-- One upstream validation is bound to the ticket: only the callback of the login has used it up,
  and there the provider was asked once. -/
  validated : ∀ {n k j realm uid providerId handle extension ticket user version},
    FederatedLogin cfg tr p n k j realm uid providerId handle extension ticket user version →
    (∀ {k'}, TicketTaken p k' ticket → k' = k) ∧
    (∀ {k' call realm' providerId' extension' result}, p.calls k' = some call →
      call.request.ticket? = some ticket →
      Upstream cfg call.request call.log realm' providerId' extension' result → k' = k) ∧
    ∃ call, p.calls k = some call ∧ call.log.countP (fun x => Op.isValidation x.op) = 1
  /-- A completion handle contributes to one login. -/
  handles : ∀ {n k j n' k' j' realm uid uid' providerId providerId' handle extension extension'
      ticket ticket' user user' version version'},
    FederatedLogin cfg tr p n k j realm uid providerId handle extension ticket user version →
    FederatedLogin cfg tr p n' k' j' realm uid' providerId' handle extension' ticket' user'
      version' → n = n'
  /-- A state or a RelayState is used up by one callback and contributes to one login. -/
  tickets : ∀ {n k j n' k' j' realm realm' uid uid' providerId providerId' handle handle' extension
      extension' ticket user user' version version'},
    FederatedLogin cfg tr p n k j realm uid providerId handle extension ticket user version →
    FederatedLogin cfg tr p n' k' j' realm' uid' providerId' handle' extension' ticket user'
      version' → k = k' ∧ n = n'

/-! ## Tickets -/

theorem oidcProvider_id {realm id : String} {provider : OidcProvider}
    (h : oidcProvider cfg realm id = some provider) : provider.id = id := by
  simpa using List.find?_some h

theorem ticket_marker {request : Request} {key : ReplayKey}
    (h : request.ticket? = some (.relayState key)) : key.marker = .state := by
  cases request with
  | acs realm providerId response relayState => cases h; rfl
  | _ => cases h

section Run

variable {clock : Instant} {users : Users} {credentials : OrderedMap (String × String) Credential}

theorem Saved.run {n : Nat} {realm id : String} {payload : Payload} {version : Option Nat}
    (hsaved : Saved p n realm id payload version) (hwf : p.Wf)
    (h : Run (Service.step (routes cfg)) Always p tr p') : Saved p' n realm id payload version := by
  obtain ⟨call, expiresIn, hcall, ha⟩ := hsaved
  obtain ⟨call', hcall', hext⟩ := extends_of_run hwf h hcall
  exact ⟨call', expiresIn, hcall', ha.mono fun x hx => hext.mem hx⟩

/-- A record that a call has found was saved by a call. -/
theorem found_saved
    (h : Run (Service.step (routes cfg)) Always (.initial (.initial clock users credentials)) tr p)
    {n : Nat} {call : Call} (hcall : p.calls n = some call) {realm id : String} {r : StateRecord}
    (ha : Answered (I := operations) call.log (.artifact (.findState realm id)) (some r)) :
    ∃ k, Saved p k realm id r.payload r.securityVersion := by
  obtain ⟨before, after, hmem⟩ := ha
  obtain ⟨t₁, t₂, choice, m, m', old, next, rfl, hm, hstep, -, -, hanswer, hm'⟩ :=
    Run.made h hcall hmem
  change answer cfg m.store choice (.artifact (.findState realm id)) = some (some r, m'.store)
    at hanswer
  have hget : m.store.artifacts.states.get? (realm, id) = some r := by
    generalize m'.store = s' at hanswer
    cases answer_cases hanswer with
    | artifact hartifacts =>
      exact (Option.filter_eq_some_iff.mp (congrArg Prod.fst hartifacts)).1
  obtain ⟨k, hsaved⟩ := (states_run hm).stored hget
  have hwf : m.Wf := (Service.Pool.wf_initial _).run hm
  exact ⟨k, (hsaved.step hwf hstep).run (hwf.step hstep) hm'⟩

/-- A record that a call has consumed was saved before. -/
theorem Takes.saved
    (h : Run (Service.step (routes cfg)) Always (.initial (.initial clock users credentials)) tr p)
    {n : Nat} {realm id : String} (htakes : Takes p n realm id) : ∃ k payload version expiresIn,
      Saved p k realm id payload version ∧
      Precedes tr k (.artifact (.saveState realm id payload version expiresIn))
        n (.artifact (.consumeState realm id)) := by
  obtain ⟨call, hcall, before, after, hmem⟩ := htakes
  obtain ⟨t₁, t₂, choice, m, m', old, next, rfl, hm, hstep, -, -, hanswer, hm'⟩ :=
    Run.made h hcall hmem
  change answer cfg m.store choice (.artifact (.consumeState realm id)) = some (true, m'.store)
    at hanswer
  have hget : ∃ r, m.store.artifacts.states.get? (realm, id) = some r := by
    generalize m'.store = s' at hanswer
    cases answer_cases hanswer with
    | artifact hartifacts =>
      simp only [Artifacts.answer] at hartifacts
      split at hartifacts
      · cases hartifacts
      · exact ⟨_, by assumption⟩
  obtain ⟨r, hr⟩ := hget
  obtain ⟨k, hsaved⟩ := (states_run hm).stored hr
  have hwf : m.Wf := (Service.Pool.wf_initial _).run hm
  obtain ⟨saver, expiresIn, hsaver, ha⟩ := hsaved
  exact ⟨k, _, _, expiresIn, (Saved.step ⟨saver, expiresIn, hsaver, ha⟩ hwf hstep).run
    (hwf.step hstep) hm', .intro hm hsaver ha⟩

/-- A RelayState that a call has consumed was put before. -/
theorem Uses.put
    (h : Run (Service.step (routes cfg)) Always (.initial (.initial clock users credentials)) tr p)
    {n : Nat} {key : ReplayKey} {value : ReplayValue} (hstate : key.marker = .state)
    (huses : Uses p n key value) : ∃ k call ttlMs, p.calls k = some call ∧
      Starts call.request call.log key value ∧
      Precedes tr k (.artifact (.putIfAbsent key value ttlMs)) n (.artifact (.consume key)) := by
  obtain ⟨call, hcall, before, after, hmem⟩ := huses
  obtain ⟨t₁, t₂, choice, m, m', old, next, rfl, hm, hstep, -, -, hanswer, hm'⟩ :=
    Run.made h hcall hmem
  change answer cfg m.store choice (.artifact (.consume key)) = some (some value, m'.store)
    at hanswer
  have hget : ∃ r, m.store.artifacts.replay.get? key = some r ∧ r.value = value := by
    generalize m'.store = s' at hanswer
    cases answer_cases hanswer with
    | artifact hartifacts =>
      simp only [Artifacts.answer, Prod.mk.injEq] at hartifacts
      obtain ⟨r, hr, hvalue, -⟩ := ReplayCache.consume_eq_some (Prod.ext hartifacts.1 rfl)
      exact ⟨r, hr, hvalue⟩
  obtain ⟨r, hr, rfl⟩ := hget
  obtain ⟨k, ttlMs, time, hputs⟩ := (markers_run hm).stored hstate hr
  obtain ⟨starter, hstarter, -, hstarts⟩ := puts_state hm hstate hputs
  obtain ⟨starter', before', after', hstarter', -, hmem'⟩ := hputs
  cases hstarter.symm.trans hstarter'
  have hwf : m.Wf := (Service.Pool.wf_initial _).run hm
  obtain ⟨final, hfinal, hext⟩ := extends_of_run hwf (.cons trivial hstep hm') hstarter
  refine ⟨k, final, ttlMs, hfinal, ?_, .intro hm hstarter ⟨before', after', hmem'⟩⟩
  rw [hext.request]
  generalize r.value = value at hstarts ⊢
  cases hstarts with
  | start hrequest hid => exact .start hrequest (hid.mono fun x hx => hext.mem hx)

/-! ## Security versions -/

theorem version_of_answer {s s' : State} {choice : Choice} {realm id : String} {version : Nat}
    (h : (routes cfg).answer s choice (.account (.securityVersionFor realm id)) =
      some (some version, s')) : s.version? (realm, id) = some version ∧ s' = s := by
  change answer cfg s choice (.account (.securityVersionFor realm id)) = some (some version, s') at h
  cases answer_cases h with
  | account haccounts =>
    simp only [Accounts.answer, Option.some.injEq, Prod.mk.injEq] at haccounts
    obtain ⟨hversion, rfl⟩ := haccounts
    obtain ⟨u, hu, hu'⟩ := Option.bind_eq_some_iff.mp hversion
    split at hu' <;> cases hu'
    exact ⟨by simp [State.version?, hu], rfl⟩

/-- Between two states with the same version there is no other version. -/
theorem version_between {q q₁ q' : Pool} {u₁ u₂ : Trace} {key : UserKey} {version : Nat}
    (hq : q.store.version? key = some version) (hq' : q'.store.version? key = some version)
    (h₁ : Run (Service.step (routes cfg)) Always q u₁ q₁)
    (h₂ : Run (Service.step (routes cfg)) Always q₁ u₂ q') : q₁.store.version? key = some version := by
  obtain ⟨u, hu, hversion⟩ := Option.map_eq_some_iff.mp hq
  obtain ⟨u', hu', hversion'⟩ := Option.map_eq_some_iff.mp hq'
  -- a later version, or a deletion, would stay
  have hlater : ¬ AtLeast q₁.store key (version + 1) := by
    intro hlater
    rcases version_run h₂ hlater with ⟨w, hw, hle⟩ | ⟨hnone, -⟩
    · cases hu'.symm.trans hw
      omega
    · simp [hu'] at hnone
  rcases version_run h₁ (.inl ⟨u, hu, Nat.le_of_eq hversion.symm⟩) with ⟨w, hw, hle⟩ | hdeleted
  · refine Option.map_eq_some_iff.mpr ⟨w, hw, ?_⟩
    have : ¬ version + 1 ≤ w.securityVersion := fun hle' => hlater (.inl ⟨w, hw, hle'⟩)
    omega
  · exact absurd (.inr hdeleted) hlater

/-- The call that has saved a completion has looked up the version that it carries. -/
theorem Saved.version
    (h : Run (Service.step (routes cfg)) Always (.initial (.initial clock users credentials)) tr p)
    {k : Nat} {realm id : String} {c : Completion} {version : Option Nat}
    (hsaved : Saved p k realm id (.completion c) version) : ∃ v call, version = some v ∧
      p.calls k = some call ∧
      Answered (I := operations) call.log (.account (.securityVersionFor realm c.accountId))
        (some v) := by
  obtain ⟨call, l, hcall, hl, -, -, hsaves⟩ := hsaved.facts h
  cases hsaves with
  | completion _ _ hversion _ => exact ⟨_, call, rfl, hcall, hversion.mono hl⟩

/-- The version that the record of a handle carries is that of the account up to the lookup of
the call that has found the handle. -/
theorem steady_of_current
    (h : Run (Service.step (routes cfg)) Always (.initial (.initial clock users credentials)) tr p)
    {n k : Nat} {call : Call} (hcall : p.calls n = some call) {realm uid handle : String}
    (hrequest : call.request = .complete realm uid handle) {c : Completion} {version : Nat}
    (hsaved : Saved p k realm handle (.completion c) (some version))
    (hcurrent : Answered (I := operations) call.log
      (.account (.securityVersionFor realm c.accountId)) (some version)) :
    Steady cfg tr k n (realm, c.accountId) version := by
  obtain ⟨before, after, hmem⟩ := hcurrent
  obtain ⟨t₁, t₂, choice, q', m', old, next, rfl, hq', hstep, hold, hprogram, hanswer, hm'⟩ :=
    Run.made h hcall hmem
  have hversion' := (version_of_answer hanswer).1
  -- when the call looks up the version it has found the handle, which `k` has saved
  have hwf : q'.Wf := (Service.Pool.wf_initial _).run hq'
  obtain ⟨final, hfinal, hext⟩ := extends_of_run hwf (.cons trivial hstep hm') hold
  cases hcall.symm.trans hfinal
  obtain ⟨record, hfound⟩ := (routes_spec cfg).performs hq' hold hprogram realm uid handle
    (hext.request.symm.trans hrequest)
  obtain ⟨k', hsaved'⟩ := found_saved hq' hold hfound
  have hsaved'' := hsaved'.run hwf (.cons trivial hstep hm')
  obtain ⟨rfl, -, -, hpayload, hrecord⟩ := hsaved''.unique h hsaved (.inl rfl)
  rw [hpayload, hrecord] at hsaved'
  obtain ⟨v, saver, hv, hsaver, hlookup⟩ := hsaved'.version hq'
  cases hv
  obtain ⟨before', after', hmem'⟩ := hlookup
  obtain ⟨u₁, u₂, choice', q₀, q, _, _, rfl, hq₀, hstep₀, -, -, hanswer₀, hq⟩ :=
    Run.made hq' hsaver hmem'
  obtain ⟨hversion, hsame⟩ := version_of_answer hanswer₀
  refine ⟨u₁, u₂, t₂, choice', choice, _, _, q, q', List.append_assoc _ _ _, rfl, rfl, hq, ?_⟩
  intro w₁ w₂ q₁ _ h₁ h₂
  exact version_between (by rw [hsame]; exact hversion) hversion' h₁ h₂

/-! ## The law -/

/-- What the answer to a ticket was accepted for goes back to the call that has stored it. -/
theorem issues_of_upstream
    (h : Run (Service.step (routes cfg)) Always (.initial (.initial clock users credentials)) tr p)
    (hroutes : ∀ {n : Nat} {call : Call}, p.calls n = some call → call.request.isRoute = true)
    {k : Nat} {call : Call} (hcall : p.calls k = some call) {realm providerId : String}
    {extension : Extension} {result : FederationResult}
    (hupstream : Upstream cfg call.request call.log realm providerId extension result) :
    ∃ j ticket, call.request.ticket? = some ticket ∧ TicketTaken p k ticket ∧
      Issues cfg tr p j k realm providerId result.interactionUid extension ticket := by
  cases hupstream with
  | @oidc query provider transaction code subject hrequest hp hconsumed hprovider hvalid =>
    have htakes : Takes p k realm query.state := ⟨call, hcall, hconsumed.consumed⟩
    obtain ⟨r, hpayload, -, hfound⟩ := hconsumed.found
    obtain ⟨j, payload, version, expiresIn, hsaved, hbefore⟩ := htakes.saved h
    obtain ⟨j', hsaved'⟩ := found_saved h hcall hfound
    obtain ⟨rfl, -, -, rfl, rfl⟩ := hsaved.unique h hsaved' (.inl rfl)
    rw [hpayload] at hsaved hbefore
    obtain ⟨initiator, l, hinitiator, -, -, -, hsaves⟩ := hsaved.facts h
    generalize hversion : r.securityVersion = version at hsaves hbefore
    cases hsaves with
    | @initiate uid providerId' nonce codeVerifier provider' hrequest' hp' =>
      have hid : providerId' = providerId := by
        rw [← oidcProvider_id hp', ← oidcProvider_id hp, ← hprovider]
      subst hid
      rw [oidcProvider_id hp'] at hbefore
      exact ⟨j, .state realm query.state, by rw [hrequest]; rfl, htakes,
        .oidc hinitiator hrequest' hbefore⟩
  | @saml response relayState provider v pending profile hrequest hp hvalid =>
    have huses : Uses p k (provider.key realm .state relayState) (.pending pending) :=
      ⟨call, hcall, hvalid.consumed⟩
    obtain ⟨j, starter, ttlMs, hstarter, hstarts, hbefore⟩ := huses.put h rfl
    obtain ⟨huid, -, -⟩ := hvalid.result
    have hid := samlProvider_id hp
    generalize hvalue : ReplayValue.pending pending = value at hstarts hbefore
    cases hstarts with
    | @start uid requestId hrequest' hrandom =>
      cases hvalue
      dsimp only [SamlProvider.key] at huid hrequest' hbefore huses
      rw [hid] at hrequest' hbefore huses
      rw [huid]
      have hinitiated : starter.request = .initiate realm uid .saml providerId := by
        refine hrequest'.resolve_left fun hstart => ?_
        have hroute := hroutes hstarter
        rw [hstart] at hroute
        cases hroute
      exact ⟨j, .relayState ⟨realm, providerId, .state, relayState⟩, by rw [hrequest]; rfl,
        ⟨_, huses⟩, .saml hstarter hinitiated hbefore⟩

/-- A ticket is used up by one call. -/
theorem TicketTaken.unique
    (h : Run (Service.step (routes cfg)) Always (.initial (.initial clock users credentials)) tr p)
    {request : Request} {ticket : Ticket} (hticket : request.ticket? = some ticket) {k k' : Nat}
    (htaken : TicketTaken p k ticket) (htaken' : TicketTaken p k' ticket) : k = k' := by
  cases ticket with
  | state realm id => exact (states_run h).unique htaken htaken'
  | relayState key =>
    obtain ⟨value, huses⟩ := htaken
    obtain ⟨value', huses'⟩ := htaken'
    exact (markers_run h).unique (ticket_marker hticket) huses huses'

/-- A callback that was accepted has asked the provider once. -/
theorem validations_eq_one
    (h : Run (Service.step (routes cfg)) Always (.initial (.initial clock users credentials)) tr p)
    {k : Nat} {call : Call} (hcall : p.calls k = some call) {realm providerId : String}
    {extension : Extension} {result : FederationResult}
    (hupstream : Upstream cfg call.request call.log realm providerId extension result) :
    call.log.countP (fun x => Op.isValidation x.op) = 1 := by
  have hone : call.log.countP (fun x => Op.isValidation x.op) ≤ 1 := by
    refine countP_le_one fun l x l' hlog hkind => ?_
    have hperformed := (routes_spec cfg).performed h hcall hlog
    obtain ⟨op, res, before, after⟩ := x
    cases op with
    | upstream op =>
      cases op with
      | ldap => cases hkind
      | oidc | saml => exact hperformed
    | _ => cases hkind
  have hsome : 0 < call.log.countP (fun x => Op.isValidation x.op) := by
    rw [List.countP_pos_iff]
    cases hupstream with
    | oidc hrequest hp hconsumed hprovider hvalid =>
      obtain ⟨before, after, hmem⟩ := hvalid
      exact ⟨_, hmem, rfl⟩
    | saml hrequest hp hvalid =>
      obtain ⟨before, after, hmem⟩ := hvalid.validated
      exact ⟨_, hmem, rfl⟩
  omega

/-- Every call serves a route. -/
theorem isRoute_of_run {s₀ : State}
    (h : Run (Service.step (routes cfg)) Routed (.initial s₀) tr p) :
    ∀ {n : Nat} {call : Call}, p.calls n = some call → call.request.isRoute = true := by
  refine h.invariant (I := fun p : Pool => ∀ {n : Nat} {call : Call}, p.calls n = some call →
    call.request.isRoute = true) ?_ ?_
  · intro p e p' o hp hrouted hstep n call hcall
    cases step_move hstep with
    | start r =>
      by_cases hn : n = p.next
      · subst hn
        obtain rfl : ⟨r, p.store, [], (routes cfg).program r⟩ = call := by
          simpa [Pool.set] using hcall
        exact hrouted
      · exact hp (by simpa [Pool.set, Function.update_of_ne hn] using hcall)
    | @reply k choice old op next res s hold hprogram hanswer =>
      by_cases hn : n = k
      · subst hn
        have hreplied : old.reply ⟨op, res, p.store, s⟩ (next res) = call := by
          simpa [Pool.set] using hcall
        have hroute := hp hold
        rw [← hreplied]
        exact hroute
      · exact hp (by simpa [Pool.set, Function.update_of_ne hn] using hcall)
    | change hchange => exact hp hcall
  · intro n call hcall
    cases hcall

end Run

/-- Ada logs in at the upstream provider; between the resolution of the account and the lookup
of its version happens what is given. -/
def someLogin (between : List Change) : List (Event Request Choice Change) :=
  [.start (.initiate "master" "uid" .oidc "upstream"), .resume 0 (.text "nonce"),
    .resume 0 (.text "verifier"), .resume 0 (.text "0123456789abcdef0123456789abcdef"),
    .resume 0 .none,
    .start (.callback "master" "upstream" ⟨"0123456789abcdef0123456789abcdef", some "code", none, none⟩),
    .resume 1 .none, .resume 1 .none, .resume 1 (.oidc ⟨"subject", [], none⟩),
    .resume 1 (.linked "ada"), .resume 1 .none, .resume 1 .none,
    .resume 1 (.text "fedcba9876543210fedcba9876543210")] ++ between.map .change ++
  [.resume 1 .none, .resume 1 .none,
    .start (.complete "master" "uid" "fedcba9876543210fedcba9876543210"), .resume 2 .none,
    .resume 2 .none, .resume 2 .none, .resume 2 .none]

end AuthMe.Login

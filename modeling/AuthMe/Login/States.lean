import AuthMe.Login.Accounts

/-!
# One-use states in a run

The states of the OpenID brokers and the completion handles are records of the model
`FederationState`. A record is saved by the call that has drawn its name and never again, and
once it is consumed nobody can consume it (`states_run`).
-/

namespace AuthMe.Login

open Service Store
open Transition (Run Always)

variable {cfg : Config} {s s' : State} {p p' m : Pool} {tr : Trace}
  {e : Event Request Choice Change} {o : Output operations State}

/-! ## Steps of the states -/

/-- The call has saved this record. -/
def Saved (p : Pool) (n : Nat) (realm id : String) (payload : Payload) (version : Option Nat) :
    Prop :=
  ∃ call expiresIn, p.calls n = some call ∧ Answered (I := operations) call.log
    (.artifact (.saveState realm id payload version expiresIn)) ()

/-- The call has consumed the record under this name. -/
def Takes (p : Pool) (n : Nat) (realm id : String) : Prop :=
  ∃ call, p.calls n = some call ∧
    Answered (I := operations) call.log (.artifact (.consumeState realm id)) true

/-- What a step does to the record under a name. -/
inductive StateStep (p p' : Pool) (e : Event Request Choice Change) (key : String × String) : Prop
  | same (h : p'.store.artifacts.states.get? key = p.store.artifacts.states.get? key)
  | saved {n : Nat} {choice : Choice} {call : Call} {payload : Payload} {version : Option Nat}
      {expiresIn : Int} {next : Unit → Route Reply} (he : e = .resume n choice)
      (hcall : p.calls n = some call)
      (hprogram : call.program =
        .await (.artifact (.saveState key.1 key.2 payload version expiresIn)) next)
      (hsaved : Saved p' n key.1 key.2 payload version)
      (hrecord : p'.store.artifacts.states.get? key =
        some ⟨payload, version, p.store.clock.ms + expiresIn * 1000, false⟩)
  | taken {r : StateRecord} (hr : p.store.artifacts.states.get? key = some r)
      (h : p'.store.artifacts.states.get? key = some { r with consumed := true })
  | dropped (h : p'.store.artifacts.states.get? key = none)

theorem step_state (h : Service.step (routes cfg) p e = some (p', o)) (key : String × String) :
    StateStep p p' e key := by
  -- a filter keeps a record or drops it
  have hfilter : ∀ p'' : Pool, (∀ r, p''.store.artifacts.states.get? key = some r →
      p.store.artifacts.states.get? key = some r) → StateStep p p'' e key := by
    intro p'' hkept
    cases hget : p''.store.artifacts.states.get? key with
    | none => exact .dropped hget
    | some r => exact .same (hget.trans (hkept r hget).symm)
  cases step_move h with
  | start r => exact .same rfl
  | @reply n choice call op next res s hcall hprogram hanswer =>
    change answer cfg p.store choice op = some (res, s) at hanswer
    cases answer_cases hanswer with
    | @artifact op res artifacts hartifacts =>
      cases op with
      | findState => cases hartifacts; exact .same rfl
      | putIfAbsent => cases hartifacts; exact .same rfl
      | get => cases hartifacts; exact .same rfl
      | consume => cases hartifacts; exact .same rfl
      | saveState realm id payload version expiresIn =>
        cases hartifacts
        by_cases hkey : key = (realm, id)
        · subst hkey
          exact .saved rfl hcall hprogram
            ⟨_, expiresIn, Function.update_self .., Answered.here⟩ (OrderedMap.get?_set_self ..)
        · exact .same (OrderedMap.get?_set_of_ne _ hkey _)
      | consumeState realm id =>
        simp only [Artifacts.answer] at hartifacts
        split at hartifacts
        · cases hartifacts; exact .same rfl
        · rename_i r hr
          split at hartifacts <;> cases hartifacts
          · by_cases hkey : key = (realm, id)
            · subst hkey
              exact .taken hr (OrderedMap.get?_set_self ..)
            · exact .same (OrderedMap.get?_set_of_ne _ hkey _)
          · exact .same rfl
    | _ => exact .same rfl
  | @change e s hchange =>
    change change cfg p.store e = some s at hchange
    cases e with
    | revokeAccount realm id =>
      cases hchange
      refine hfilter _ fun r hr => ?_
      simp only [OrderedMap.get?_filter] at hr
      exact (Option.filter_eq_some_iff.mp hr).1
    | cleanupExpired =>
      cases hchange
      refine hfilter _ fun r hr => ?_
      simp only [OrderedMap.get?_filter] at hr
      exact (Option.filter_eq_some_iff.mp hr).1
    | createChallenge input id =>
      obtain ⟨-, rfl⟩ := change_createChallenge hchange
      exact .same rfl
    | elapse clock =>
      simp only [change] at hchange
      split at hchange <;> cases hchange
      exact .same rfl
    | createUser u =>
      simp only [change] at hchange
      split at hchange <;> cases hchange
      exact .same rfl
    | createCredential c =>
      simp only [change] at hchange
      split at hchange <;> cases hchange
      exact .same rfl
    | _ => cases hchange; exact .same rfl

/-- A consumption is an old one, or it is the answer of the step: the record was fit for use. -/
theorem takes_step (h : Service.step (routes cfg) p e = some (p', o)) {n : Nat} {realm id : String}
    (htakes : Takes p' n realm id) : Takes p n realm id ∨ ∃ choice r, e = .resume n choice ∧
      p.store.artifacts.states.get? (realm, id) = some r ∧ r.live p.store.clock = true ∧
      r.consumed = false ∧
      p'.store.artifacts.states.get? (realm, id) = some { r with consumed := true } := by
  obtain ⟨call, hcall, ha⟩ := htakes
  rcases (step_move h).answered hcall ha with ⟨old, hold, ha⟩ | ⟨old, choice, next, he, -, -, hanswer⟩
  · exact .inl ⟨old, hold, ha⟩
  · change answer cfg p.store choice (.artifact (.consumeState realm id)) = _ at hanswer
    generalize p'.store = s' at hanswer ⊢
    cases answer_cases hanswer with
    | artifact hartifacts =>
      simp only [Artifacts.answer] at hartifacts
      split at hartifacts
      · cases hartifacts
      · rename_i r hr
        split at hartifacts <;> cases hartifacts
        rename_i hfit
        simp only [Bool.and_eq_true, Bool.not_eq_true'] at hfit
        exact .inr ⟨choice, r, he, hr, hfit.1, hfit.2, OrderedMap.get?_set_self ..⟩

theorem Saved.step {n : Nat} {realm id : String} {payload : Payload} {version : Option Nat}
    (hsaved : Saved p n realm id payload version) (hwf : p.Wf)
    (h : Service.step (routes cfg) p e = some (p', o)) : Saved p' n realm id payload version := by
  obtain ⟨call, expiresIn, hcall, ha⟩ := hsaved
  obtain ⟨call', hcall', hext⟩ := extends_of_step hwf h hcall
  exact ⟨call', expiresIn, hcall', ha.mono fun x hx => hext.mem hx⟩

/-! ## States in a run -/

/-- What is known of a record that a call has saved. -/
theorem Saved.facts {s₀ : State} (h : Run (Service.step (routes cfg)) Always (.initial s₀) tr p)
    {n : Nat} {realm id : String} {payload : Payload} {version : Option Nat}
    (hsaved : Saved p n realm id payload version) : ∃ call l, p.calls n = some call ∧
      (∀ x ∈ l, x ∈ call.log) ∧ Free Op.isSave l ∧ Answered (I := operations) l .random id ∧
      Saves cfg call.request l realm payload version := by
  obtain ⟨call, expiresIn, hcall, ha⟩ := hsaved
  obtain ⟨l, hl, hfree, hrandom, hsaves⟩ := (routes_spec cfg).answered h hcall ha
  exact ⟨call, l, hcall, hl, hfree, hrandom, hsaves⟩

/-- **A record is saved once**, and a call saves one record. -/
theorem Saved.unique {s₀ : State} (h : Run (Service.step (routes cfg)) Always (.initial s₀) tr p)
    {n n' : Nat} {realm realm' id id' : String} {payload payload' : Payload}
    {version version' : Option Nat} (hsaved : Saved p n realm id payload version)
    (hsaved' : Saved p n' realm' id' payload' version') (hsame : id = id' ∨ n = n') :
    n = n' ∧ realm = realm' ∧ id = id' ∧ payload = payload' ∧ version = version' := by
  have hn : n = n' := by
    rcases hsame with rfl | hn
    · obtain ⟨call, l, hcall, hl, -, hrandom, -⟩ := hsaved.facts h
      obtain ⟨call', l', hcall', hl', -, hrandom', -⟩ := hsaved'.facts h
      exact (random_unique h).unique hcall hcall' (hrandom.mono hl) (hrandom'.mono hl')
    · exact hn
  subst hn
  obtain ⟨call, expiresIn, hcall, before, after, hmem⟩ := hsaved
  obtain ⟨call', expiresIn', hcall', before', after', hmem'⟩ := hsaved'
  cases hcall.symm.trans hcall'
  cases eq_of_countP_le_one (saves_once h hcall) hmem hmem' rfl rfl
  exact ⟨rfl, rfl, rfl, rfl, rfl⟩

/-- The records in the store were saved by calls of the run, and one that has been consumed is
never fit for use again. -/
structure States (p : Pool) : Prop where
  stored : ∀ {realm id r}, p.store.artifacts.states.get? (realm, id) = some r →
    ∃ n, Saved p n realm id r.payload r.securityVersion
  taken : ∀ {n realm id}, Takes p n realm id →
    (∃ m payload version, Saved p m realm id payload version) ∧
      ∀ r, p.store.artifacts.states.get? (realm, id) = some r → r.consumed = true
  unique : ∀ {n m realm id}, Takes p n realm id → Takes p m realm id → n = m

theorem States.step {s₀ : State} (hrun : Run (Service.step (routes cfg)) Always (.initial s₀) tr p)
    (hp : States p) (h : Service.step (routes cfg) p e = some (p', o)) : States p' := by
  have hwf : p.Wf := (Service.Pool.wf_initial _).run hrun
  -- a record that has been saved is not saved again
  have hnew : ∀ {n call realm id payload version expiresIn next}, p.calls n = some call →
      call.program = .await (.artifact (.saveState realm id payload version expiresIn)) next →
      ∀ {m payload' version'}, ¬ Saved p m realm id payload' version' := by
    intro n call realm id payload version expiresIn next hcall hprogram m payload' version' hsaved
    obtain ⟨hfree, hrandom, -⟩ := (routes_spec cfg).performs hrun hcall hprogram
    obtain ⟨call', l, hcall', hl, -, hrandom', -⟩ := hsaved.facts hrun
    cases (random_unique hrun).unique hcall hcall' hrandom (hrandom'.mono hl)
    obtain ⟨call'', expiresIn', hcall'', before, after, hmem⟩ := hsaved
    cases hcall.symm.trans hcall''
    cases hfree _ hmem
  constructor
  case stored =>
    intro realm id r hr
    cases step_state h (realm, id) with
    | same hsame =>
      obtain ⟨n, hsaved⟩ := hp.stored (hsame ▸ hr)
      exact ⟨n, hsaved.step hwf h⟩
    | @saved n _ _ _ _ _ _ _ _ _ hsaved hrecord =>
      cases hrecord.symm.trans hr
      exact ⟨n, hsaved⟩
    | taken hold htaken =>
      obtain ⟨n, hsaved⟩ := hp.stored hold
      cases htaken.symm.trans hr
      exact ⟨n, hsaved.step hwf h⟩
    | dropped hgone => simp [hgone] at hr
  case taken =>
    intro n realm id htakes
    rcases takes_step h htakes with hold | ⟨choice, r, -, hr, -, -, hafter⟩
    · obtain ⟨⟨m, payload, version, hsaved⟩, hconsumed⟩ := hp.taken hold
      refine ⟨⟨m, payload, version, hsaved.step hwf h⟩, fun r hr => ?_⟩
      cases step_state h (realm, id) with
      | same hsame => exact hconsumed r (hsame ▸ hr)
      | saved _ hcall hprogram => exact absurd hsaved (hnew hcall hprogram)
      | taken _ htaken => cases htaken.symm.trans hr; rfl
      | dropped hgone => simp [hgone] at hr
    · obtain ⟨m, hsaved⟩ := hp.stored hr
      refine ⟨⟨m, _, _, hsaved.step hwf h⟩, fun r' hr' => ?_⟩
      cases hafter.symm.trans hr'
      rfl
  case unique =>
    intro n m realm id htakes htakes'
    rcases takes_step h htakes with hold | ⟨choice, r, he, hr, -, hfree, -⟩ <;>
      rcases takes_step h htakes' with hold' | ⟨choice', r', he', hr', -, hfree', -⟩
    · exact hp.unique hold hold'
    · simp [(hp.taken hold).2 r' hr'] at hfree'
    · simp [(hp.taken hold').2 r hr] at hfree
    · cases he.symm.trans he'
      rfl

/-- **States in a run.** -/
theorem states_run {clock : Instant} {users : Users}
    {credentials : OrderedMap (String × String) Credential}
    (h : Run (Service.step (routes cfg)) Always (.initial (.initial clock users credentials)) tr p) :
    States p := by
  refine h.along (I := fun p _ => States p) ?_ ⟨?_, ?_, ?_⟩
  · intro m tr e m' o hrun hm _ hstep
    exact hm.step hrun hstep
  · intro realm id r hr
    cases hr
  · rintro n realm id ⟨call, hcall, -⟩
    cases hcall
  · rintro n m realm id ⟨call, hcall, -⟩
    cases hcall

end AuthMe.Login

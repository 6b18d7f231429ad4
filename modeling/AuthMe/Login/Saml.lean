import AuthMe.Login.Fresh

/-!
# SAML responses in a run

What holds in every run of the login routes for the calls of one SAML broker (`saml_replay`):

* a RelayState and a request identifier lead to one success. The marker of a RelayState is
  stored by the `start` that has drawn it and never again, and once it is consumed nobody can
  consume it (`Markers`);
* two successes with one Response ID or one Assertion ID have claimed it at times that are so far
  apart that the first marker had expired at the second (`Claims`);
* a success returns what the `start` of its RelayState has stored, and the response and its
  assertion are bound to the identifier of that request.
-/

namespace AuthMe.Login

open Service Store
open Transition (Run Always)

variable {cfg : Config} {s s' : State} {p p' : Pool} {tr : Trace}

/-! ## The replay cache -/

namespace ReplayCache

variable {kind : CacheKind} {now : Instant} {cache cache' : ReplayCache} {key : ReplayKey}

/-- A marker that is put was not live, and is stored. -/
theorem putIfAbsent_eq_true {value : ReplayValue} {ttlMs : Int}
    (h : cache.putIfAbsent kind now key value ttlMs = (true, cache')) :
    (∀ r, cache.get? key = some r → r.live now = false) ∧
      ∃ consumed, cache' = cache.set key ⟨value, now.ms + ttlMs, consumed⟩ := by
  unfold putIfAbsent at h
  split at h
  · rename_i hnone
    cases h
    exact ⟨by simp [hnone], false, rfl⟩
  · rename_i r hr
    split at h
    · cases h
    · rename_i hdead
      have hall : ∀ r', cache.get? key = some r' → r'.live now = false := by
        intro r' hr'
        cases hr.symm.trans hr'
        simpa using hdead
      split at h <;> cases h
      · exact ⟨hall, false, rfl⟩
      · exact ⟨hall, r.consumed, rfl⟩

theorem putIfAbsent_eq_false {value : ReplayValue} {ttlMs : Int}
    (h : cache.putIfAbsent kind now key value ttlMs = (false, cache')) : cache' = cache := by
  unfold putIfAbsent at h
  split at h
  · cases h
  · split at h
    · cases h; rfl
    · split at h <;> cases h
      rfl

/-- A marker that is consumed was live, and is gone or marked. -/
theorem consume_eq_some {value : ReplayValue}
    (h : cache.consume kind now key = (some value, cache')) :
    ∃ r, cache.get? key = some r ∧ r.value = value ∧ r.consumed = false ∧
      (cache' = cache.erase key ∨ cache' = cache.set key { r with consumed := true }) := by
  unfold consume at h
  split at h
  · cases h
  · rename_i r hr
    split at h
    · rename_i hlive
      simp only [Bool.and_eq_true, Bool.not_eq_true'] at hlive
      cases kind with
      | process => cases h; exact ⟨r, hr, rfl, hlive.2, .inl rfl⟩
      | adapter backend => cases h; exact ⟨r, hr, rfl, hlive.2, .inr rfl⟩
    · cases h

theorem consume_eq_none (h : cache.consume kind now key = (none, cache')) : cache' = cache := by
  unfold consume at h
  split at h
  · cases h; rfl
  · split at h <;> cases h
    rfl

/-- Consumption touches one marker, which is gone or marked after it. -/
theorem get?_consume (kind : CacheKind) (now : Instant) (cache : ReplayCache) (key a : ReplayKey) :
    (cache.consume kind now key).2.get? a = cache.get? a ∨ a = key ∧ ∃ r, cache.get? a = some r ∧
      ((cache.consume kind now key).2.get? a = none ∨
        (cache.consume kind now key).2.get? a = some { r with consumed := true }) := by
  generalize hconsume : cache.consume kind now key = result
  obtain ⟨found, cache'⟩ := result
  cases found with
  | none =>
    cases consume_eq_none hconsume
    exact .inl rfl
  | some value =>
    obtain ⟨r, hr, -, -, hcache'⟩ := consume_eq_some hconsume
    by_cases ha : a = key
    · subst ha
      refine .inr ⟨rfl, r, hr, ?_⟩
      rcases hcache' with rfl | rfl
      · exact .inl (OrderedMap.get?_erase_self ..)
      · exact .inr (OrderedMap.get?_set_self ..)
    · refine .inl ?_
      rcases hcache' with rfl | rfl
      · exact OrderedMap.get?_erase_of_ne _ ha
      · exact OrderedMap.get?_set_of_ne _ ha _

end ReplayCache

/-! ## Steps of the cache -/

/-- The call has put the marker at this time. -/
def Puts (p : Pool) (n : Nat) (key : ReplayKey) (value : ReplayValue) (ttlMs time : Int) : Prop :=
  ∃ call before after, p.calls n = some call ∧ before.clock.ms = time ∧
    (⟨.artifact (.putIfAbsent key value ttlMs), true, before, after⟩ :
      Entry operations State) ∈ call.log

/-- What a step does to the marker of a key. -/
inductive Marked (p p' : Pool) (e : Event Request Choice Change) (key : ReplayKey) : Prop
  | same (h : p'.store.artifacts.replay.get? key = p.store.artifacts.replay.get? key)
  | put {n : Nat} {choice : Choice} {call : Call} {value : ReplayValue} {ttlMs : Int}
      {consumed : Bool} {next : Bool → Route Reply} (he : e = .resume n choice)
      (hcall : p.calls n = some call)
      (hprogram : call.program = .await (.artifact (.putIfAbsent key value ttlMs)) next)
      (hputs : Puts p' n key value ttlMs p.store.clock.ms)
      (hdead : ∀ r, p.store.artifacts.replay.get? key = some r → r.live p.store.clock = false)
      (hput : p'.store.artifacts.replay.get? key =
        some ⟨value, p.store.clock.ms + ttlMs, consumed⟩)
  | used {r : ReplayRecord} (hmarker : key.marker = .request ∨ key.marker = .state)
      (hr : p.store.artifacts.replay.get? key = some r)
      (h : p'.store.artifacts.replay.get? key = none ∨
        p'.store.artifacts.replay.get? key = some { r with consumed := true })
  | expired {r : ReplayRecord} (hr : p.store.artifacts.replay.get? key = some r)
      (hdead : r.live p.store.clock = false)
      (hgone : p'.store.artifacts.replay.get? key = none)

theorem step_marked (hp : p.Obeys (routes cfg) (Performs cfg) (Returns cfg))
    {e : Event Request Choice Change} {o : Output operations State}
    (h : Service.step (routes cfg) p e = some (p', o)) (key : ReplayKey) : Marked p p' e key := by
  -- what a consumption of another key, or of this one, comes to
  have hused : ∀ (key' : ReplayKey) (p'' : Pool), key'.marker = .request ∨ key'.marker = .state →
      p''.store.artifacts.replay = (p.store.artifacts.replay.consume cfg.cache p.store.clock key').2 →
      Marked p p'' e key := by
    intro key' p'' hmarker hstore
    rcases ReplayCache.get?_consume cfg.cache p.store.clock p.store.artifacts.replay key' key with
      hsame | ⟨rfl, r, hr, h⟩
    · exact .same (by rw [hstore, hsame])
    · exact .used hmarker hr (by rwa [hstore])
  cases step_move h with
  | start r => exact .same rfl
  | @reply n choice call op next res s hcall hprogram hanswer =>
    change answer cfg p.store choice op = some (res, s) at hanswer
    cases answer_cases hanswer with
    | @artifact op res artifacts hartifacts =>
      cases op with
      | saveState => cases hartifacts; exact .same rfl
      | findState => cases hartifacts; exact .same rfl
      | get => cases hartifacts; exact .same rfl
      | consumeState realm id =>
        simp only [Artifacts.answer] at hartifacts
        split at hartifacts
        · cases hartifacts; exact .same rfl
        · split at hartifacts <;> cases hartifacts <;> exact .same rfl
      | putIfAbsent key' value ttlMs =>
        simp only [Artifacts.answer, Prod.mk.injEq] at hartifacts
        obtain ⟨hres, rfl⟩ := hartifacts
        generalize hcache : p.store.artifacts.replay.putIfAbsent cfg.cache p.store.clock key' value
          ttlMs = r at hres
        obtain ⟨ok, cache'⟩ := r
        cases hres
        cases ok with
        | false =>
          cases ReplayCache.putIfAbsent_eq_false hcache
          exact .same rfl
        | true =>
          obtain ⟨hdead, consumed, rfl⟩ := ReplayCache.putIfAbsent_eq_true hcache
          by_cases hkey : key = key'
          · subst hkey
            exact .put rfl hcall hprogram ⟨_, _, _, Function.update_self .., rfl, List.mem_cons_self⟩
              hdead (OrderedMap.get?_set_self ..)
          · exact .same (OrderedMap.get?_set_of_ne _ hkey _)
      | consume key' =>
        simp only [Artifacts.answer, Prod.mk.injEq] at hartifacts
        obtain ⟨-, rfl⟩ := hartifacts
        have hobeys := hp n call hcall
        rw [hprogram] at hobeys
        exact hused key' _ hobeys.1 rfl
    | _ => exact .same rfl
  | @change e s hchange =>
    cases e with
    | removeRequest realm providerId requestId =>
      cases hchange
      exact hused ⟨realm, providerId, .request, requestId⟩ _ (.inl rfl) rfl
    | cleanupExpired =>
      cases hchange
      cases hget : p.store.artifacts.replay.get? key with
      | none => exact .same (by simp [OrderedMap.get?_filter, hget])
      | some r =>
        cases hlive : r.live p.store.clock with
        | true => exact .same (by simp [OrderedMap.get?_filter, hget, hlive])
        | false => exact .expired hget hlive (by simp [OrderedMap.get?_filter, hget, hlive])
    | createChallenge input id =>
      change change cfg p.store (.createChallenge input id) = some s at hchange
      obtain ⟨-, rfl⟩ := change_createChallenge hchange
      exact .same rfl
    | elapse clock =>
      simp only [routes, change] at hchange
      split at hchange <;> cases hchange
      exact .same rfl
    | createUser u =>
      simp only [routes, change] at hchange
      split at hchange <;> cases hchange
      exact .same rfl
    | createCredential c =>
      simp only [routes, change] at hchange
      split at hchange <;> cases hchange
      exact .same rfl
    | _ => cases hchange; exact .same rfl

theorem clock_step {e : Event Request Choice Change} {o : Output operations State}
    (h : Service.step (routes cfg) p e = some (p', o)) : p.store.clock.ms ≤ p'.store.clock.ms := by
  cases step_move h with
  | start r => exact Int.le_refl _
  | @reply n choice call op next res s _ _ hanswer =>
    change answer cfg p.store choice op = some (res, s) at hanswer
    cases answer_cases hanswer <;> exact Int.le_refl _
  | @change e s hchange =>
    cases e with
    | createChallenge input id =>
      change change cfg p.store (.createChallenge input id) = some s at hchange
      obtain ⟨-, rfl⟩ := change_createChallenge hchange
      exact Int.le_refl _
    | elapse clock =>
      simp only [routes, change] at hchange
      split at hchange <;> cases hchange
      assumption
    | createUser u =>
      simp only [routes, change] at hchange
      split at hchange <;> cases hchange
      exact Int.le_refl _
    | createCredential c =>
      simp only [routes, change] at hchange
      split at hchange <;> cases hchange
      exact Int.le_refl _
    | _ => cases hchange; exact Int.le_refl _

/-! ## Claims -/

/-- A marker is put by an old answer, or by that of the step. -/
theorem puts_step {e : Event Request Choice Change} {o : Output operations State}
    (h : Service.step (routes cfg) p e = some (p', o)) {n : Nat} {key : ReplayKey}
    {value : ReplayValue} {ttlMs time : Int} (hputs : Puts p' n key value ttlMs time) :
    Puts p n key value ttlMs time ∨ ∃ choice consumed, e = .resume n choice ∧
      time = p.store.clock.ms ∧
      (∀ r, p.store.artifacts.replay.get? key = some r → r.live p.store.clock = false) ∧
      p'.store.artifacts.replay.get? key = some ⟨value, time + ttlMs, consumed⟩ := by
  obtain ⟨call, before, after, hcall, htime, hmem⟩ := hputs
  cases step_move h with
  | start r =>
    by_cases hn : n = p.next
    · subst hn
      simp only [Service.Pool.set, Function.update_self, Option.some.injEq] at hcall
      subst hcall
      cases hmem
    · simp only [Service.Pool.set, Function.update_of_ne hn] at hcall
      exact .inl ⟨call, before, after, hcall, htime, hmem⟩
  | change hchange => exact .inl ⟨call, before, after, hcall, htime, hmem⟩
  | @reply k choice old op next res s hold hprogram hanswer =>
    by_cases hn : n = k
    · subst hn
      simp only [Service.Pool.set, Function.update_self, Option.some.injEq] at hcall
      subst hcall
      rcases List.mem_cons.mp hmem with heq | hmem
      · cases heq
        change answer cfg p.store choice (.artifact (.putIfAbsent key value ttlMs)) = some (true, after)
          at hanswer
        cases answer_cases hanswer with
        | @artifact op res artifacts hartifacts =>
          simp only [Artifacts.answer, Prod.mk.injEq] at hartifacts
          obtain ⟨hres, rfl⟩ := hartifacts
          generalize hput : p.store.artifacts.replay.putIfAbsent cfg.cache p.store.clock key value
            ttlMs = result at hres
          obtain ⟨ok, cache'⟩ := result
          cases hres
          obtain ⟨hdead, consumed, rfl⟩ := ReplayCache.putIfAbsent_eq_true hput
          subst htime
          exact .inr ⟨choice, consumed, rfl, rfl, hdead, OrderedMap.get?_set_self ..⟩
      · exact .inl ⟨old, before, after, hold, htime, hmem⟩
    · simp only [Service.Pool.set, Function.update_of_ne hn] at hcall
      exact .inl ⟨call, before, after, hcall, htime, hmem⟩

theorem Puts.step {n : Nat} {key : ReplayKey} {value : ReplayValue} {ttlMs time : Int}
    (hputs : Puts p n key value ttlMs time) (hwf : p.Wf) {e : Event Request Choice Change}
    {o : Output operations State} (h : Service.step (routes cfg) p e = some (p', o)) :
    Puts p' n key value ttlMs time := by
  obtain ⟨call, before, after, hcall, htime, hmem⟩ := hputs
  obtain ⟨call', hcall', hext⟩ := extends_of_step hwf h hcall
  exact ⟨call', before, after, hcall', htime, hext.mem hmem⟩

def Marker.isUsed : Marker → Bool
  | .response | .assertion => true
  | .state | .request => false

/-- The marker of a response or an assertion stays until it expires, and it is put again only
when it has expired. -/
structure Claims (p : Pool) : Prop where
  lives : ∀ {n key value ttlMs time}, key.marker.isUsed = true → Puts p n key value ttlMs time →
    time + ttlMs ≤ p.store.clock.ms ∨
      ∃ r, p.store.artifacts.replay.get? key = some r ∧ time + ttlMs ≤ r.expiresAt
  apart : ∀ {n m key value value' ttlMs ttlMs' time time'}, key.marker.isUsed = true → n ≠ m →
    Puts p n key value ttlMs time → Puts p m key value' ttlMs' time' →
    time + ttlMs ≤ time' ∨ time' + ttlMs' ≤ time

theorem Claims.step (hp : Claims p) (hobeys : p.Obeys (routes cfg) (Performs cfg) (Returns cfg))
    {e : Event Request Choice Change} {o : Output operations State}
    (h : Service.step (routes cfg) p e = some (p', o)) : Claims p' := by
  have hclock := clock_step h
  -- what was put before has expired when the marker is dead
  have hexpired : ∀ {n key value ttlMs time}, key.marker.isUsed = true →
      Puts p n key value ttlMs time →
      (∀ r, p.store.artifacts.replay.get? key = some r → r.live p.store.clock = false) →
      time + ttlMs ≤ p.store.clock.ms := by
    intro n key value ttlMs time hmarker hputs hdead
    rcases hp.lives hmarker hputs with hle | ⟨r, hr, hle⟩
    · exact hle
    · have hnot := hdead r hr
      simp only [ReplayRecord.live, decide_eq_false_iff_not] at hnot
      omega
  constructor
  case lives =>
    intro n key value ttlMs time hmarker hputs
    rcases puts_step h hputs with hold | ⟨_, consumed, -, -, -, hput⟩
    · cases step_marked hobeys h key with
      | same hsame =>
        rw [hsame]
        exact (hp.lives hmarker hold).imp_left fun hle => Int.le_trans hle hclock
      | put _ _ _ _ hdead _ => exact .inl (Int.le_trans (hexpired hmarker hold hdead) hclock)
      | used hused _ _ => rcases hused with hused | hused <;> simp [hused, Marker.isUsed] at hmarker
      | @expired r hr hdead _ =>
        refine .inl (Int.le_trans (hexpired hmarker hold fun r' hr' => ?_) hclock)
        cases hr.symm.trans hr'
        exact hdead
    · exact .inr ⟨_, hput, Int.le_refl _⟩
  case apart =>
    intro n m key value value' ttlMs ttlMs' time time' hmarker hne hputs hputs'
    rcases puts_step h hputs with hold | ⟨choice, _, he, rfl, hdead, -⟩ <;>
      rcases puts_step h hputs' with hold' | ⟨choice', _, he', rfl, hdead', -⟩
    · exact hp.apart hmarker hne hold hold'
    · exact .inl (hexpired hmarker hold hdead')
    · exact .inr (hexpired hmarker hold' hdead)
    · cases he.symm.trans he'
      exact absurd rfl hne

theorem claims_run {s₀ : State} (h : Run (Service.step (routes cfg)) Always (.initial s₀) tr p) :
    Claims p := by
  refine h.along (I := fun p _ => Claims p) ?_ ⟨?_, ?_⟩
  · intro m tr e m' o hrun hm _ hstep
    exact hm.step ((routes_spec cfg).run hrun) hstep
  · rintro n key value ttlMs time - ⟨call, -, -, hcall, -⟩
    cases hcall
  · rintro n m key value value' ttlMs ttlMs' time time' - - ⟨call, -, -, hcall, -⟩
    cases hcall

/-! ## RelayStates -/

/-- The call has consumed the marker. -/
def Uses (p : Pool) (n : Nat) (key : ReplayKey) (value : ReplayValue) : Prop :=
  ∃ call, p.calls n = some call ∧
    Answered (I := operations) call.log (.artifact (.consume key)) (some value)

theorem uses_step {e : Event Request Choice Change} {o : Output operations State}
    (h : Service.step (routes cfg) p e = some (p', o)) {n : Nat} {key : ReplayKey}
    {value : ReplayValue} (huses : Uses p' n key value) :
    Uses p n key value ∨ ∃ choice r, e = .resume n choice ∧
      p.store.artifacts.replay.get? key = some r ∧ r.value = value ∧ r.consumed = false ∧
      ∀ r', p'.store.artifacts.replay.get? key = some r' → r'.consumed = true := by
  obtain ⟨call, hcall, ha⟩ := huses
  rcases (step_move h).answered hcall ha with ⟨old, hold, ha⟩ | ⟨old, choice, next, he, -, -, hanswer⟩
  · exact .inl ⟨old, hold, ha⟩
  · change answer cfg p.store choice (.artifact (.consume key)) = _ at hanswer
    generalize p'.store = s' at hanswer ⊢
    cases answer_cases hanswer with
    | @artifact op res artifacts hartifacts =>
      simp only [Artifacts.answer, Prod.mk.injEq] at hartifacts
      obtain ⟨hres, rfl⟩ := hartifacts
      generalize hconsume : p.store.artifacts.replay.consume cfg.cache p.store.clock key = result
        at hres
      obtain ⟨found, cache'⟩ := result
      cases hres
      obtain ⟨r, hr, hvalue, hfree, hcache⟩ := ReplayCache.consume_eq_some hconsume
      refine .inr ⟨choice, r, he, hr, hvalue, hfree, fun r' hr' => ?_⟩
      rcases hcache with rfl | rfl
      · rw [OrderedMap.get?_erase_self] at hr'
        cases hr'
      · rw [OrderedMap.get?_set_self] at hr'
        cases hr'
        rfl

/-- What is known of a RelayState that a call has put. -/
theorem puts_state {s₀ : State} (h : Run (Service.step (routes cfg)) Always (.initial s₀) tr p)
    {n : Nat} {key : ReplayKey} {value : ReplayValue} {ttlMs time : Int}
    (hstate : key.marker = .state) (hputs : Puts p n key value ttlMs time) :
    ∃ call, p.calls n = some call ∧ Answered (I := operations) call.log .random key.id ∧
      Starts call.request call.log key value := by
  obtain ⟨call, before, after, hcall, -, hmem⟩ := hputs
  obtain ⟨l, hl, hperforms⟩ := (routes_spec cfg).answered h hcall ⟨before, after, hmem⟩
  obtain ⟨-, hrandom, hstarts⟩ := hperforms hstate
  refine ⟨call, hcall, hrandom.mono hl, ?_⟩
  cases hstarts with
  | start hrequest hid => exact .start hrequest (hid.mono hl)

/-- **A RelayState is put once.** -/
theorem puts_unique {s₀ : State} (h : Run (Service.step (routes cfg)) Always (.initial s₀) tr p)
    {n m : Nat} {key key' : ReplayKey} {value value' : ReplayValue} {ttlMs ttlMs' time time' : Int}
    (hstate : key.marker = .state) (hstate' : key'.marker = .state)
    (hputs : Puts p n key value ttlMs time) (hputs' : Puts p m key' value' ttlMs' time')
    (hsame : key.id = key'.id ∨ n = m) : n = m ∧ key = key' ∧ value = value' := by
  have hn : n = m := by
    rcases hsame with hid | hn
    · obtain ⟨call, hcall, hrandom, -⟩ := puts_state h hstate hputs
      obtain ⟨call', hcall', hrandom', -⟩ := puts_state h hstate' hputs'
      exact (random_unique h).unique hcall hcall' hrandom (hid ▸ hrandom')
    · exact hn
  subst hn
  obtain ⟨call, before, after, hcall, -, hmem⟩ := hputs
  obtain ⟨call', before', after', hcall', -, hmem'⟩ := hputs'
  cases hcall.symm.trans hcall'
  have heq := eq_of_countP_le_one (saves_once h hcall) hmem hmem' (by simp [Op.isSave, hstate])
    (by simp [Op.isSave, hstate'])
  cases heq
  exact ⟨rfl, rfl, rfl⟩

/-- The RelayStates in the cache were put by calls of the run, and one that has been consumed is
never fit for use again. -/
structure Markers (p : Pool) : Prop where
  stored : ∀ {key r}, key.marker = .state → p.store.artifacts.replay.get? key = some r →
    ∃ n ttlMs time, Puts p n key r.value ttlMs time
  consumed : ∀ {n key value}, key.marker = .state → Uses p n key value →
    (∃ m ttlMs time, Puts p m key value ttlMs time) ∧
      ∀ r, p.store.artifacts.replay.get? key = some r → r.consumed = true
  unique : ∀ {n m key value value'}, key.marker = .state → Uses p n key value →
    Uses p m key value' → n = m

theorem Markers.step {s₀ : State} (hrun : Run (Service.step (routes cfg)) Always (.initial s₀) tr p)
    (hp : Markers p) {e : Event Request Choice Change} {o : Output operations State}
    (h : Service.step (routes cfg) p e = some (p', o)) : Markers p' := by
  have hobeys := (routes_spec cfg).run hrun
  have hwf : p.Wf := (Service.Pool.wf_initial _).run hrun
  have hrun' := hrun.append (.single trivial h)
  -- a RelayState that has been put is not put again
  have hnew : ∀ {n call key value ttlMs next}, key.marker = .state → p.calls n = some call →
      call.program = .await (.artifact (.putIfAbsent key value ttlMs)) next →
      ∀ {m value' ttlMs' time}, ¬ Puts p m key value' ttlMs' time := by
    intro n call key value ttlMs next hstate hcall hprogram m value' ttlMs' time hputs
    obtain ⟨hfree, hrandom, -⟩ := (routes_spec cfg).performs hrun hcall hprogram hstate
    obtain ⟨call', hcall', hrandom', -⟩ := puts_state hrun hstate hputs
    cases (random_unique hrun).unique hcall hcall' hrandom hrandom'
    obtain ⟨call'', before, after, hcall'', -, hmem⟩ := hputs
    cases hcall.symm.trans hcall''
    have := hfree _ hmem
    simp [Op.isSave, hstate] at this
  constructor
  case stored =>
    intro key r hstate hr
    cases step_marked hobeys h key with
    | same hsame =>
      obtain ⟨n, ttlMs, time, hputs⟩ := hp.stored hstate (hsame ▸ hr)
      exact ⟨n, ttlMs, time, hputs.step hwf h⟩
    | expired _ _ hgone => simp [hgone] at hr
    | used _ hold hused =>
      rcases hused with hgone | hused
      · simp [hgone] at hr
      · obtain ⟨n, ttlMs, time, hputs⟩ := hp.stored hstate hold
        cases hused.symm.trans hr
        exact ⟨n, ttlMs, time, hputs.step hwf h⟩
    | @put n _ _ _ _ _ _ _ _ _ hputs _ hput =>
      cases hput.symm.trans hr
      exact ⟨n, _, _, hputs⟩
  case consumed =>
    intro n key value hstate huses
    rcases uses_step h huses with hold | ⟨choice, r, -, hr, rfl, -, hafter⟩
    · obtain ⟨⟨m, ttlMs, time, hputs⟩, hconsumed⟩ := hp.consumed hstate hold
      refine ⟨⟨m, ttlMs, time, hputs.step hwf h⟩, fun r hr => ?_⟩
      cases step_marked hobeys h key with
      | same hsame => exact hconsumed r (hsame ▸ hr)
      | put _ hcall hprogram => exact absurd hputs (hnew hstate hcall hprogram)
      | expired _ _ hgone => simp [hgone] at hr
      | used _ _ hused =>
        rcases hused with hgone | hused
        · simp [hgone] at hr
        · cases hused.symm.trans hr
          rfl
    · obtain ⟨m, ttlMs, time, hputs⟩ := hp.stored hstate hr
      exact ⟨⟨m, ttlMs, time, hputs.step hwf h⟩, hafter⟩
  case unique =>
    intro n m key value value' hstate huses huses'
    rcases uses_step h huses with hold | ⟨choice, r, he, hr, -, hfree, -⟩ <;>
      rcases uses_step h huses' with hold' | ⟨choice', r', he', hr', -, hfree', -⟩
    · exact hp.unique hstate hold hold'
    · simp [(hp.consumed hstate hold).2 r' hr'] at hfree'
    · simp [(hp.consumed hstate hold').2 r hr] at hfree
    · cases he.symm.trans he'
      rfl

theorem markers_run {clock : Instant} {users : Users}
    {credentials : OrderedMap (String × String) Credential}
    (h : Run (Service.step (routes cfg)) Always (.initial (.initial clock users credentials)) tr p) :
    Markers p := by
  refine h.along (I := fun p _ => Markers p) ?_ ⟨?_, ?_, ?_⟩
  · intro m tr e m' o hrun hm _ hstep
    exact hm.step hrun hstep
  · intro key r _ hr
    cases hr
  · rintro n key value - ⟨call, hcall, -⟩
    cases hcall
  · rintro n m key value value' - ⟨call, hcall, -⟩
    cases hcall

/-! ## The law of SAML responses -/

/-- What a `start` returns. -/
structure Started where
  uid : String
  relayState : String
  requestId : String

/-- What a `consumePost` is given and what it returns. -/
structure Accepted where
  response : String
  relayState : String
  uid : String
  requestId : String
  responseId : String
  assertionId : String

/-- The call is a `start` of the broker that has returned. -/
def StartReturns (p : Pool) (n : Nat) (realm providerId : String) (x : Started) : Prop :=
  ∃ call, p.calls n = some call ∧ call.request = .start realm providerId x.uid ∧
    call.program = .done (.started x.relayState x.requestId)

/-- The call is a `consumePost` of the broker that has succeeded. -/
def PostSucceeds (p : Pool) (n : Nat) (realm providerId : String) (x : Accepted) : Prop :=
  ∃ call, p.calls n = some call ∧
    call.request = .consumePost realm providerId x.response x.relayState ∧
    call.program = .done (.validated x.uid x.requestId x.responseId x.assertionId)

/-- What was claimed for `ttlMs` by one of the calls had expired when the other one has claimed
it. -/
def ClaimedApart (p : Pool) (n m : Nat) (key : ReplayKey) (ttlMs : Int) : Prop :=
  ∃ time time', Puts p n key .used ttlMs time ∧ Puts p m key .used ttlMs time' ∧
    (time + ttlMs ≤ time' ∨ time' + ttlMs ≤ time)

/-- What the answers of Node-SAML and the response say of the request. -/
structure BoundTo (cfg : Config) (p : Pool) (n : Nat) (provider : SamlProvider) (realm : String)
    (x : Accepted) : Prop where
  envelope : ∃ envelope, cfg.responseEnvelope x.response = some envelope ∧
    envelope.id = x.responseId ∧ envelope.inResponseTo = x.requestId
  assertion : ∃ call profile, p.calls n = some call ∧
    Answered (I := operations) call.log (.upstream (.saml realm provider.id x.response))
      (some profile) ∧
    profile.inResponseTo = x.requestId ∧ profile.issuer = provider.entityId ∧
    profile.assertionId = some x.assertionId ∧
    ∃ c ∈ profile.confirmations, c.bearer = true ∧ c.inResponseTo = x.requestId

/-- What holds of the calls of one broker. -/
structure SamlLaw (cfg : Config) (p : Pool) (realm providerId : String) : Prop where
  /-- One success for each RelayState. -/
  relayState : ∀ {n m x y}, PostSucceeds p n realm providerId x → PostSucceeds p m realm providerId y →
    x.relayState = y.relayState → n = m
  /-- One success for each request. -/
  request : ∀ {n m x y}, PostSucceeds p n realm providerId x → PostSucceeds p m realm providerId y →
    x.requestId = y.requestId → n = m
  /-- One success for each Response ID while its record lives. -/
  response : ∀ {n m x y}, n ≠ m → PostSucceeds p n realm providerId x →
    PostSucceeds p m realm providerId y → x.responseId = y.responseId →
    ∃ provider, samlProvider cfg realm providerId = some provider ∧
      ClaimedApart p n m (provider.key realm .response x.responseId) provider.replayTtlMs
  /-- One success for each Assertion ID while its record lives. -/
  assertion : ∀ {n m x y}, n ≠ m → PostSucceeds p n realm providerId x →
    PostSucceeds p m realm providerId y → x.assertionId = y.assertionId →
    ∃ provider, samlProvider cfg realm providerId = some provider ∧
      ClaimedApart p n m (provider.key realm .assertion x.assertionId) provider.replayTtlMs
  /-- A success belongs to one `start`, which has stored what it returns. -/
  started : ∀ {n x}, PostSucceeds p n realm providerId x → ∃ provider,
    samlProvider cfg realm providerId = some provider ∧
    (∃ m call ttlMs time, p.calls m = some call ∧
      (call.request = .start realm providerId x.uid ∨
        call.request = .initiate realm x.uid .saml providerId) ∧
      Answered (I := operations) call.log .random x.requestId ∧
      Puts p m (provider.key realm .state x.relayState)
        (.pending ⟨realm, providerId, x.uid, x.requestId⟩) ttlMs time) ∧
    BoundTo cfg p n provider realm x
  /-- Whoever was given the RelayState by `start` was given this request. -/
  issued : ∀ {n m x y}, StartReturns p m realm providerId y → PostSucceeds p n realm providerId x →
    x.relayState = y.relayState → x.uid = y.uid ∧ x.requestId = y.requestId

/-- What a success has in its log. -/
theorem PostSucceeds.validated {s₀ : State}
    (h : Run (Service.step (routes cfg)) Always (.initial s₀) tr p) {n : Nat}
    {realm providerId : String} {x : Accepted} (hn : PostSucceeds p n realm providerId x) :
    ∃ call provider subject pending profile, p.calls n = some call ∧
      samlProvider cfg realm providerId = some provider ∧
      Validated cfg provider realm x.response x.relayState call.log
        ⟨x.uid, x.requestId, x.responseId, x.assertionId, subject⟩ pending profile := by
  obtain ⟨call, hcall, hrequest, hdone⟩ := hn
  obtain ⟨provider, subject, pending, profile, hprovider, hvalid⟩ :=
    ((routes_spec cfg).finished h hcall hdone).2 _ _ _ _ _ _ _ _ hrequest rfl
  exact ⟨call, provider, subject, pending, profile, hcall, hprovider, hvalid⟩

theorem puts_of_answered {n : Nat} {call : Call} {key : ReplayKey} {value : ReplayValue}
    {ttlMs : Int} (hcall : p.calls n = some call)
    (h : Answered (I := operations) call.log (.artifact (.putIfAbsent key value ttlMs)) true) :
    ∃ time, Puts p n key value ttlMs time := by
  obtain ⟨before, after, hmem⟩ := h
  exact ⟨_, call, before, after, hcall, rfl, hmem⟩

theorem assertionDetails_eq_some {profile : SamlProfile} {provider : SamlProvider}
    {requestId : String} {time : Instant} {assertionId : String}
    (h : assertionDetails profile provider requestId time = some assertionId) :
    profile.assertionId = some assertionId ∧
      ∃ c ∈ profile.confirmations, c.bearer = true ∧ c.inResponseTo = requestId := by
  unfold assertionDetails at h
  split at h
  · rename_i hany
    obtain ⟨c, hc, hvalid⟩ := List.any_eq_true.mp hany
    simp only [Confirmation.isValid, Bool.and_eq_true, decide_eq_true_eq] at hvalid
    exact ⟨h, c, hc, hvalid.1.1.1, hvalid.1.2⟩
  · cases h

/-- The RelayState of a success was put by one call, with what the success returns. -/
theorem PostSucceeds.puts {clock : Instant} {users : Users}
    {credentials : OrderedMap (String × String) Credential}
    (h : Run (Service.step (routes cfg)) Always (.initial (.initial clock users credentials)) tr p)
    {n : Nat} {realm providerId : String} {x : Accepted}
    (hn : PostSucceeds p n realm providerId x) : ∃ provider m call ttlMs time,
      samlProvider cfg realm providerId = some provider ∧ p.calls m = some call ∧
      (call.request = .start realm providerId x.uid ∨
        call.request = .initiate realm x.uid .saml providerId) ∧
      Answered (I := operations) call.log .random x.requestId ∧
      Puts p m (provider.key realm .state x.relayState)
        (.pending ⟨realm, providerId, x.uid, x.requestId⟩) ttlMs time ∧
      Uses p n (provider.key realm .state x.relayState)
        (.pending ⟨realm, providerId, x.uid, x.requestId⟩) := by
  obtain ⟨call, provider, subject, pending, profile, hcall, hprovider, hvalid⟩ := hn.validated h
  have huses : Uses p n (provider.key realm .state x.relayState) (.pending pending) :=
    ⟨call, hcall, hvalid.consumed⟩
  obtain ⟨⟨m, ttlMs, time, hputs⟩, -⟩ := (markers_run h).consumed rfl huses
  obtain ⟨starter, hstarter, -, hstarts⟩ := puts_state h rfl hputs
  have hid := samlProvider_id hprovider
  generalize hvalue : ReplayValue.pending pending = value at hstarts
  cases hstarts with
  | @start uid requestId hrequest hrandom =>
    cases hvalue
    obtain ⟨hx, hx', -⟩ := hvalid.result
    have hprovider' := samlProvider_id hprovider
    dsimp only [SamlProvider.key] at hx hx' hrequest hputs huses ⊢
    subst hx hx' hprovider'
    exact ⟨provider, m, starter, ttlMs, time, hprovider, hstarter, hrequest, hrandom, hputs, huses⟩

/-- What two successes have claimed alike was claimed by each of them at its own time. -/
theorem claimedApart {s₀ : State} (h : Run (Service.step (routes cfg)) Always (.initial s₀) tr p)
    {n m : Nat} {realm providerId : String} {x y : Accepted} (hne : n ≠ m)
    (hn : PostSucceeds p n realm providerId x) (hm : PostSucceeds p m realm providerId y) :
    ∃ provider, samlProvider cfg realm providerId = some provider ∧
      (x.responseId = y.responseId →
        ClaimedApart p n m (provider.key realm .response x.responseId) provider.replayTtlMs) ∧
      (x.assertionId = y.assertionId →
        ClaimedApart p n m (provider.key realm .assertion x.assertionId) provider.replayTtlMs) := by
  obtain ⟨call, provider, _, _, _, hcall, hprovider, hvalid⟩ := hn.validated h
  obtain ⟨call', provider', _, _, _, hcall', hprovider', hvalid'⟩ := hm.validated h
  cases hprovider.symm.trans hprovider'
  have hclaims := claims_run h
  refine ⟨provider, hprovider, fun heq => ?_, fun heq => ?_⟩
  · obtain ⟨time, hputs⟩ := puts_of_answered hcall hvalid.claimedResponse
    obtain ⟨time', hputs'⟩ := puts_of_answered hcall' hvalid'.claimedResponse
    dsimp only at hputs hputs'
    rw [← heq] at hputs'
    exact ⟨time, time', hputs, hputs', hclaims.apart rfl hne hputs hputs'⟩
  · obtain ⟨time, hputs⟩ := puts_of_answered hcall hvalid.claimedAssertion
    obtain ⟨time', hputs'⟩ := puts_of_answered hcall' hvalid'.claimedAssertion
    dsimp only at hputs hputs'
    rw [← heq] at hputs'
    exact ⟨time, time', hputs, hputs', hclaims.apart rfl hne hputs hputs'⟩

theorem saml_replay {clock : Instant} {users : Users}
    {credentials : OrderedMap (String × String) Credential}
    (h : Run (Service.step (routes cfg)) Always (.initial (.initial clock users credentials)) tr p)
    (realm providerId : String) : SamlLaw cfg p realm providerId := by
  have hmarkers := markers_run h
  constructor
  case relayState =>
    intro n m x y hn hm heq
    obtain ⟨provider, _, _, _, _, hprovider, -, -, -, -, huses⟩ := hn.puts h
    obtain ⟨provider', _, _, _, _, hprovider', -, -, -, -, huses'⟩ := hm.puts h
    cases hprovider.symm.trans hprovider'
    exact hmarkers.unique rfl huses (heq ▸ huses')
  case request =>
    intro n m x y hn hm heq
    obtain ⟨provider, k, call, _, _, hprovider, hcall, -, hrandom, hputs, huses⟩ := hn.puts h
    obtain ⟨provider', k', call', _, _, hprovider', hcall', -, hrandom', hputs', huses'⟩ := hm.puts h
    cases hprovider.symm.trans hprovider'
    -- the request was drawn by one call, and that call has put one RelayState
    have hk := (random_unique h).unique hcall hcall' hrandom (heq ▸ hrandom')
    have hkey := (puts_unique h rfl rfl hputs hputs' (.inr hk)).2.1
    exact hmarkers.unique rfl huses (hkey ▸ huses')
  case response =>
    intro n m x y hne hn hm heq
    obtain ⟨provider, hprovider, hresponse, -⟩ := claimedApart h hne hn hm
    exact ⟨provider, hprovider, hresponse heq⟩
  case assertion =>
    intro n m x y hne hn hm heq
    obtain ⟨provider, hprovider, -, hassertion⟩ := claimedApart h hne hn hm
    exact ⟨provider, hprovider, hassertion heq⟩
  case started =>
    intro n x hn
    obtain ⟨provider, m, starter, ttlMs, time, hprovider, hstarter, hrequest, hrandom, hputs, -⟩ :=
      hn.puts h
    obtain ⟨call, provider', _, pending, profile, hcall, hprovider', hvalid⟩ := hn.validated h
    cases hprovider.symm.trans hprovider'
    obtain ⟨-, hid, -⟩ := hvalid.result
    obtain ⟨envelope, henvelope, hresponse, hbound, -⟩ := hvalid.enveloped
    obtain ⟨now, -, hdetails⟩ := hvalid.details
    obtain ⟨hassertion, c, hc, hbearer, hconfirmed⟩ := assertionDetails_eq_some hdetails
    dsimp only at hid hresponse hassertion
    exact ⟨provider, hprovider,
      ⟨m, starter, ttlMs, time, hstarter, hrequest, hrandom, hputs⟩,
      ⟨envelope, henvelope, hresponse, hbound.trans hid.symm⟩,
      ⟨call, profile, hcall, hvalid.validated, hvalid.bound.1.trans hid.symm, hvalid.bound.2,
        hassertion, c, hc, hbearer, hconfirmed.trans hid.symm⟩⟩
  case issued =>
    intro n m x y hm hn heq
    obtain ⟨starter, hstarter, hrequest, hdone⟩ := hm
    obtain ⟨provider, hprovider, ha⟩ :=
      ((routes_spec cfg).finished h hstarter hdone).1 _ _ _ _ _ hrequest rfl
    obtain ⟨time, hputs⟩ := puts_of_answered hstarter ha
    obtain ⟨provider', k, _, _, _, hprovider', -, -, -, hputs', -⟩ := hn.puts h
    cases hprovider.symm.trans hprovider'
    have hvalue := (puts_unique h rfl rfl hputs' hputs (.inl heq)).2.2
    simpa using hvalue

def someProfile : SamlProfile where
  issuer := "https://partner"
  nameID := "ada"
  inResponseTo := "request-1"
  assertionId := some "assertion-1"
  confirmations := [⟨true, "https://auth/acs", "request-1", none, some 9000⟩]

/-- The profile of a response to a later request. -/
def laterProfile : SamlProfile :=
  { someProfile with
    inResponseTo := "request-2"
    confirmations := [⟨true, "https://auth/acs", "request-2", none, some 9000⟩] }

/-- Every response has one Response ID, and all but the first one answer the later request. -/
def replayConfig : Config :=
  { someConfig with
    responseEnvelope := fun response => some ⟨"response-id", "https://auth/acs",
      if response = "first" then "request-1" else "request-2"⟩ }

/-- A response to a request of the broker is accepted. The same post is refused, and so is a response
with its Response ID to a later request, under another RelayState. -/
theorem saml_replay_response : ∃ p call again later, p.calls 1 = some call ∧
    call.program = .done (.validated "uid" "request-1" "response-id" "assertion-1") ∧
    p.calls 2 = some again ∧ again.request =
      .consumePost "master" "partner" "first" "0123456789abcdef0123456789abcdef" ∧
    again.program = .done .failed ∧
    p.calls 4 = some later ∧ later.request =
      .consumePost "master" "partner" "second" "fedcba9876543210fedcba9876543210" ∧
    later.log.head?.map (fun x => x.op) = some (.artifact (.putIfAbsent
      ⟨"master", "partner", .response, "response-id"⟩ .used 600000)) ∧
    later.program = .done .failed ∧ SamlLaw replayConfig p "master" "partner" := by
  have h : Transition.exec (Service.step (routes replayConfig)) Always (.initial someState)
      [.start (.start "master" "partner" "uid"),
        .resume 0 (.text "0123456789abcdef0123456789abcdef"), .resume 0 (.text "request-1"),
        .resume 0 .none, .resume 0 .none,
        .start (.consumePost "master" "partner" "first" "0123456789abcdef0123456789abcdef"),
        .resume 1 .none, .resume 1 (.saml someProfile), .resume 1 .none, .resume 1 .none,
        .resume 1 .none, .resume 1 .none,
        .start (.consumePost "master" "partner" "first" "0123456789abcdef0123456789abcdef"),
        .resume 2 .none,
        .start (.start "master" "partner" "uid"),
        .resume 3 (.text "fedcba9876543210fedcba9876543210"), .resume 3 (.text "request-2"),
        .resume 3 .none, .resume 3 .none,
        .start (.consumePost "master" "partner" "second" "fedcba9876543210fedcba9876543210"),
        .resume 4 .none, .resume 4 (.saml laterProfile), .resume 4 .none, .resume 4 .none] =
      some (_, _) := rfl
  exact ⟨_, _, _, _, rfl, rfl, rfl, rfl, rfl, rfl, rfl, rfl, rfl,
    saml_replay (.of_exec h) "master" "partner"⟩

end AuthMe.Login

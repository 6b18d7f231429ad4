import AuthMe.Adapters.Memory

/-!
# What a step of the in-memory adapter does

`step_move`: every step is one of the moves of `Move`, which name the action and say how
the state changes, under which condition, and what is shown. The invariants are proved
from it, without another look at the functions.
-/

namespace AuthMe.Adapters.Memory

/-- An `upsert` is at line 49 with this payload and this parent. -/
inductive Ready (s : State) (now : Instant) (key : Key) (expiresIn : Option Int) :
    Action → Nat → Payload → Option Nat → Prop
  | fresh {payload} (hreplay : key.model = "ReplayDetection" → s.live? now key = none)
      (hgrant : (mergeConsumed (s.record? key) payload).grantId = none) :
      Ready s now key expiresIn (.upsert key payload expiresIn) s.tick
        (mergeConsumed (s.record? key) payload) none
  | parent {call next parent version p}
      (hcall : s.calls call = some (.upsertParent key next expiresIn parent version))
      (hp : s.heap parent = some p) (hsome : version.isSome)
      (hversion : p.securityVersion = version) :
      Ready s now key expiresIn (.resume call) call
        { next with accountId := p.payload.accountId } (some parent)

/-- An `upsert` is at line 50, and `version` is the version of its account. -/
inductive Decided (s : State) (now : Instant) (key : Key) (expiresIn : Option Int) :
    Action → Nat → Payload → Option Nat → Option Nat → Prop
  | unowned {a call next parent} (h : Ready s now key expiresIn a call next parent)
      (hacc : next.accountId = none) : Decided s now key expiresIn a call next parent none
  | owned {call next parent version}
      (hcall : s.calls call = some (.upsertOwn key next expiresIn parent version)) :
      Decided s now key expiresIn (.resume call) call next parent version

/-- The outcomes that leave nothing behind. -/
def Outcome.isQuiet : Outcome → Bool
  | .failed _ | .absent | .mutated | .claimed false => true
  | _ => false

/-- The action redeems the record of the key, if it is allowed to. -/
def Action.redeems (key : Key) : Action → Bool
  | .consume k => k = key
  | .claimInitialAccessToken realm id => (⟨realm, "InitialAccessToken", id⟩ : Key) = key
  | _ => false

/-- The outcome of a redemption. -/
def Outcome.isRedeemed : Outcome → Bool
  | .done | .claimed true => true
  | _ => false

theorem Outcome.isRedeemed_of_isQuiet {o : Outcome} (h : o.isQuiet = true) :
    o.isRedeemed = false := by
  unfold isQuiet at h
  split at h
  · rfl
  · rfl
  · rfl
  · rfl
  · cases h

/-- The call reaches an `await` and changes nothing else. -/
inductive Awaits (s : State) (now : Instant) : Action → Nat → Call → Prop
  | parent {key payload expiresIn g ref p accountId}
      (hreplay : key.model = "ReplayDetection" → s.live? now key = none)
      (hgrant : (mergeConsumed (s.record? key) payload).grantId = some g)
      (hparent : s.live? now ⟨key.realm, "Grant", g⟩ = some (ref, p))
      (hacc : p.payload.accountId = some accountId) :
      Awaits s now (.upsert key payload expiresIn) s.tick
        (.upsertParent key (mergeConsumed (s.record? key) payload) expiresIn ref
          (s.securityVersionFor key.realm accountId))
  | own {key expiresIn a call next parent accountId}
      (hready : Ready s now key expiresIn a call next parent)
      (hacc : next.accountId = some accountId) :
      Awaits s now a call (.upsertOwn key next expiresIn parent
        (s.securityVersionFor key.realm accountId))
  | find {realm model column key ref r}
      (hselect : select s now realm model column = some (key, ref, r)) :
      Awaits s now (.find realm model column) s.tick
        (.find key ref (r.payload.accountId.bind (s.securityVersionFor realm)))
  | mutation {kind realm accountId row} (hlive : s.users realm accountId = .live row) :
      Awaits s now (.mutation kind realm accountId) s.tick (.mutation kind realm accountId .begun)

/-- All that a step can do. -/
inductive Move (s : State) (now : Instant) : Action → State → Nat → Outcome → Prop
  | ended {a call o} (ho : o.isQuiet = true) : Move s now a (s.finish call) call o
  | awaits {a call c} (h : Awaits s now a call c) :
      Move s now a (s.suspend call c) call .suspended
  | saved {key expiresIn a call next parent version}
      (hdecided : Decided s now key expiresIn a call next parent version)
      (hown : next.accountId.isSome → version.isSome)
      (hparent : ∀ g, next.grantId = some g →
        (s.live? now ⟨key.realm, "Grant", g⟩).map Prod.fst = parent ∧
        (s.live? now ⟨key.realm, "Grant", g⟩).bind (·.2.securityVersion) = version) :
      Move s now a ((s.finish call).save key ⟨next, version, expiresIn.map (now.ms + ·), key, call⟩)
        call (.saved key)
  | foundFree {realm model column key ref r}
      (hselect : select s now realm model column = some (key, ref, r))
      (hfree : r.securityVersion = none) :
      Move s now (.find realm model column) (s.finish s.tick) s.tick (.found key ref r.payload)
  | found {call key ref r version} (hcall : s.calls call = some (.find key ref version))
      (hr : s.heap ref = some r) (hversion : version = r.securityVersion) :
      Move s now (.resume call) (s.finish call) call (.found key ref r.payload)
  | redeemed {a key ref r o} (ha : a.redeems key = true) (ho : o.isRedeemed = true)
      (hlive : s.live? now key = some (ref, r)) (hfree : r.payload.isConsumed = false) :
      Move s now a { s with heap := Function.update s.heap ref (some (r.consume now)) } s.tick o
  | removed {a} (p : Key → Nat → Bool) (ha : ∀ key, a.redeems key = false) :
      Move s now a { s with store := s.store.filter p } s.tick .done
  | changed {call kind realm accountId slot}
      (hcall : s.calls call = some (.mutation kind realm accountId .begun))
      (hle : Epoch.Cell.Le Account.securityVersion (s.users realm accountId) slot)
      (hpast : ∀ row, s.users realm accountId = .live row →
        Epoch.Cell.Past Account.securityVersion slot row.securityVersion) :
      Move s now (.resume call) ((s.withUser realm accountId slot).suspend call
        (.mutation kind realm accountId .changed)) call .suspended
  | revoked {call kind realm accountId}
      (hcall : s.calls call = some (.mutation kind realm accountId .changed)) :
      Move s now (.resume call) ((revokeAccount s realm accountId).suspend call
        (.mutation kind realm accountId .revoked)) call .suspended
  | user {realm accountId row slot}
      (hle : Epoch.Cell.Le Account.securityVersion (s.users realm accountId) slot) :
      Move s now (.setUser realm accountId row) (s.withUser realm accountId slot) s.tick .done

section Moves

variable {s : State} {now : Instant} {key : Key} {expiresIn : Option Int} {a : Action}
  {call : Nat} {next : Payload} {parent version : Option Nat}

theorem move_upsertWrite (h : Decided s now key expiresIn a call next parent version) :
    Move s now a (upsertWrite s now call key next expiresIn parent version).1 call
      (upsertWrite s now call key next expiresIn parent version).2 := by
  unfold upsertWrite
  split
  · exact .ended rfl
  · rename_i hown
    dsimp only
    split
    · exact .ended rfl
    · rename_i hparent
      simp only [not_and, not_or, not_not] at hown hparent
      refine .saved h (fun hs => Option.ne_none_iff_isSome.mp (hown hs)) ?_
      intro g hg
      simpa [hg] using hparent (by simp [hg])

theorem move_upsertOwn (h : Ready s now key expiresIn a call next parent) :
    Move s now a (upsertOwn s now call key next expiresIn parent).1 call
      (upsertOwn s now call key next expiresIn parent).2 := by
  unfold upsertOwn
  split
  · rename_i hacc
    exact move_upsertWrite (.unowned h hacc)
  · rename_i accountId hacc
    exact .awaits (.own h hacc)

theorem move_upsertResume {ref : Nat}
    (h : s.calls call = some (.upsertParent key next expiresIn ref version)) :
    Move s now (.resume call) (upsertResume s now call key next expiresIn ref version).1 call
      (upsertResume s now call key next expiresIn ref version).2 := by
  unfold upsertResume
  split
  · exact .ended rfl
  · rename_i p hp
    split
    · exact .ended rfl
    · rename_i hversion
      split
      · exact .ended rfl
      · simp only [not_or, not_not] at hversion
        exact move_upsertOwn (.parent h hp (Option.ne_none_iff_isSome.mp hversion.1) hversion.2)

theorem move_upsert {payload : Payload} :
    Move s now (.upsert key payload expiresIn) (upsert s now key payload expiresIn).1 s.tick
      (upsert s now key payload expiresIn).2 := by
  unfold upsert
  split
  · exact .ended rfl
  · rename_i hreplay
    have hreplay' : key.model = "ReplayDetection" → s.live? now key = none := fun hm => by
      simpa [hm] using hreplay
    dsimp only
    split
    · rename_i hgrant
      exact move_upsertOwn (.fresh hreplay' hgrant)
    · rename_i g hgrant
      split
      · exact .ended rfl
      · rename_i ref p hparent
        split
        · exact .ended rfl
        · rename_i accountId hacc
          exact .awaits (.parent hreplay' hgrant hparent hacc)

theorem move_find {realm model : String} {column : Column} :
    Move s now (.find realm model column) (find s now realm model column).1 s.tick
      (find s now realm model column).2 := by
  unfold find
  split
  · exact .ended rfl
  · rename_i k ref r hselect
    split
    · rename_i hfree
      exact .foundFree hselect hfree
    · exact .awaits (.find hselect)

theorem move_findResume {ref : Nat} (h : s.calls call = some (.find key ref version)) :
    Move s now (.resume call) (findResume s call key ref version).1 call
      (findResume s call key ref version).2 := by
  unfold findResume
  split
  · exact .ended rfl
  · rename_i r hr
    split
    · exact .ended rfl
    · rename_i hversion
      exact .found h hr (not_not.mp hversion)

theorem le_bumped (slot : Slot) : Epoch.Cell.Le Account.securityVersion slot (bumped slot) := by
  cases slot with
  | unused => trivial
  | live a => exact Nat.le_succ _
  | retired => trivial

theorem move_mutationResume {kind : Kind} {realm accountId : String} {stage : Stage}
    (h : s.calls call = some (.mutation kind realm accountId stage)) :
    Move s now (.resume call) (mutationResume s call kind realm accountId stage).1 call
      (mutationResume s call kind realm accountId stage).2 := by
  cases stage with
  | begun =>
    cases kind with
    | mutate =>
      refine .changed h (le_bumped _) fun row hrow => ?_
      rw [hrow]
      exact Nat.lt_succ_self _
    | delete =>
      unfold mutationResume
      dsimp only
      split
      · exact .ended rfl
      · rename_i row hrow
        rw [Epoch.Cell.value?_eq_some] at hrow
        exact .changed h (by rw [hrow]; trivial) fun _ _ => trivial
  | changed => exact .revoked h
  | revoked => exact .ended rfl

theorem move_mutationStart {kind : Kind} {realm accountId : String} :
    Move s now (.mutation kind realm accountId) (mutationStart s kind realm accountId).1 s.tick
      (mutationStart s kind realm accountId).2 := by
  unfold mutationStart
  split
  · exact .ended rfl
  · rename_i row hrow
    exact .awaits (.mutation (Epoch.Cell.value?_eq_some.mp hrow))

theorem markConsumed_eq_some {s' : State} (h : markConsumed s now key = some s') :
    ∃ ref r, s.live? now key = some (ref, r) ∧ r.payload.isConsumed = false ∧
      s' = { s with heap := Function.update s.heap ref (some (r.consume now)) } := by
  unfold markConsumed at h
  split at h
  · cases h
  · rename_i ref r hlive
    split at h
    · cases h
    · rename_i hfree
      exact ⟨ref, r, hlive, by simpa using hfree, (Option.some.inj h).symm⟩

theorem move_consume : Move s now (.consume key) (consume s now key).1 s.tick
    (consume s now key).2 := by
  unfold consume
  split
  · rename_i s' hmark
    obtain ⟨ref, r, hlive, hfree, rfl⟩ := markConsumed_eq_some hmark
    have hredeems : (Action.consume key).redeems key = true := by simp [Action.redeems]
    exact .redeemed hredeems rfl hlive hfree
  · exact .ended rfl

theorem move_claimInitialAccessToken {realm id : String} :
    Move s now (.claimInitialAccessToken realm id) (claimInitialAccessToken s now realm id).1
      s.tick (claimInitialAccessToken s now realm id).2 := by
  unfold claimInitialAccessToken
  split
  · rename_i s' hmark
    obtain ⟨ref, r, hlive, hfree, rfl⟩ := markConsumed_eq_some hmark
    have hredeems : (Action.claimInitialAccessToken realm id).redeems
        ⟨realm, "InitialAccessToken", id⟩ = true := by simp [Action.redeems]
    exact .redeemed hredeems rfl hlive hfree
  · exact .ended rfl

end Moves

/-- **Inversion of a step.** -/
theorem step_move {s s' : State} {now : Instant} {a : Action} {call : Nat} {o : Outcome}
    (h : step s (now, a) = some (s', call, o)) :
    ∃ s₁, s' = s₁.tock ∧ call = s.callOf a ∧ Move s now a s₁ call o := by
  obtain ⟨r, hperform, heq⟩ := Option.map_eq_some_iff.mp h
  cases heq
  refine ⟨r.1, rfl, rfl, ?_⟩
  cases a with
  | upsert key payload expiresIn =>
    obtain rfl := Option.some.inj hperform
    exact move_upsert
  | find realm model column =>
    obtain rfl := Option.some.inj hperform
    exact move_find
  | mutation kind realm accountId =>
    obtain rfl := Option.some.inj hperform
    exact move_mutationStart
  | resume call =>
    obtain ⟨c, hc, hresume⟩ := Option.map_eq_some_iff.mp hperform
    cases c with
    | upsertParent key next expiresIn parent version =>
      subst hresume
      exact move_upsertResume hc
    | upsertOwn key next expiresIn parent version =>
      subst hresume
      exact move_upsertWrite (.owned hc)
    | find key ref version =>
      subst hresume
      exact move_findResume hc
    | mutation kind realm accountId stage =>
      subst hresume
      exact move_mutationResume hc
  | consume key =>
    obtain rfl := Option.some.inj hperform
    exact move_consume
  | claimInitialAccessToken realm id =>
    obtain rfl := Option.some.inj hperform
    exact move_claimInitialAccessToken
  | destroy key =>
    obtain rfl := Option.some.inj hperform
    exact .removed _ fun _ => rfl
  | revokeByGrantId realm model grantId =>
    obtain rfl := Option.some.inj hperform
    exact .removed _ fun _ => rfl
  | setUser realm accountId row =>
    obtain ⟨slot, hslot, heq⟩ := Option.map_eq_some_iff.mp hperform
    subst heq
    exact .user (le_of_setUser hslot)

/-! ## Well-formed states -/

/-- The numbers of objects and calls are below the step counter, and the buckets hold
objects. -/
structure Wf (s : State) : Prop where
  heap_lt : ∀ {ref r}, s.heap ref = some r → ref < s.tick
  calls_lt : ∀ {call c}, s.calls call = some c → call < s.tick
  store : ∀ {key ref}, s.store.get? key = some ref → ∃ r, s.heap ref = some r

theorem wf_initial (users : String → String → Slot) : Wf (.initial users) where
  heap_lt h := by cases h
  calls_lt h := by cases h
  store h := by cases h

theorem Ready.call_le {s : State} {now : Instant} {key : Key} {expiresIn : Option Int}
    {a : Action} {call : Nat} {next : Payload} {parent : Option Nat}
    (h : Ready s now key expiresIn a call next parent) (hwf : Wf s) : call ≤ s.tick := by
  cases h with
  | fresh => exact Nat.le_refl _
  | parent hcall => exact Nat.le_of_lt (hwf.calls_lt hcall)

theorem Decided.call_le {s : State} {now : Instant} {key : Key} {expiresIn : Option Int}
    {a : Action} {call : Nat} {next : Payload} {parent version : Option Nat}
    (h : Decided s now key expiresIn a call next parent version) (hwf : Wf s) :
    call ≤ s.tick := by
  cases h with
  | unowned h => exact h.call_le hwf
  | owned hcall => exact Nat.le_of_lt (hwf.calls_lt hcall)

theorem Awaits.call_le {s : State} {now : Instant} {a : Action} {call : Nat} {c : Call}
    (h : Awaits s now a call c) (hwf : Wf s) : call ≤ s.tick := by
  cases h with
  | own hready => exact hready.call_le hwf
  | parent | find | mutation => exact Nat.le_refl _

theorem Wf.suspend {s : State} (hwf : Wf s) {call : Nat} (hcall : call ≤ s.tick) (c : Call) :
    Wf (s.suspend call c).tock where
  heap_lt h := Nat.lt_succ_of_lt (hwf.heap_lt h)
  calls_lt {call' c'} h := by
    by_cases hc : call' = call
    · subst hc
      exact Nat.lt_succ_of_le hcall
    · simp only [State.tock, State.suspend, Function.update_of_ne hc] at h
      exact Nat.lt_succ_of_lt (hwf.calls_lt h)
  store h := hwf.store h

theorem Wf.finish {s : State} (hwf : Wf s) (call : Nat) : Wf (s.finish call).tock where
  heap_lt h := Nat.lt_succ_of_lt (hwf.heap_lt h)
  calls_lt {call' c'} h := by
    by_cases hc : call' = call
    · subst hc
      simp [State.tock, State.finish] at h
    · simp only [State.tock, State.finish, Function.update_of_ne hc] at h
      exact Nat.lt_succ_of_lt (hwf.calls_lt h)
  store h := hwf.store h

theorem Wf.withUser {s : State} (hwf : Wf s) (realm accountId : String) (slot : Slot) :
    Wf (s.withUser realm accountId slot) :=
  ⟨hwf.heap_lt, hwf.calls_lt, hwf.store⟩

theorem Wf.filter {s : State} (hwf : Wf s) (p : Key → Nat → Bool) :
    Wf { s with store := s.store.filter p } where
  heap_lt := hwf.heap_lt
  calls_lt := hwf.calls_lt
  store {key ref} h := by
    rw [OrderedMap.get?_filter] at h
    exact hwf.store (Option.filter_eq_some_iff.mp h).1

theorem Wf.tock {s : State} (hwf : Wf s) : Wf s.tock :=
  ⟨fun h => Nat.lt_succ_of_lt (hwf.heap_lt h), fun h => Nat.lt_succ_of_lt (hwf.calls_lt h),
    hwf.store⟩

theorem Wf.save {s : State} (hwf : Wf s) (call : Nat) (key : Key) (r : Record) :
    Wf ((s.finish call).save key r).tock where
  heap_lt {ref r'} h := by
    by_cases href : ref = s.tick
    · subst href
      exact Nat.lt_succ_self _
    · simp only [State.tock, State.save, State.finish, Function.update_of_ne href] at h
      exact Nat.lt_succ_of_lt (hwf.heap_lt h)
  calls_lt := (hwf.finish call).calls_lt
  store {key' ref} h := by
    simp only [State.tock, State.save, State.finish, OrderedMap.get?_set] at h ⊢
    by_cases href : ref = s.tick
    · exact ⟨r, by simp [href]⟩
    · rw [Function.update_of_ne href]
      split at h
      · exact absurd (Option.some.inj h).symm href
      · exact hwf.store h

theorem Wf.consume {s : State} (hwf : Wf s) {ref : Nat} {r r' : Record}
    (hr : s.heap ref = some r) :
    Wf ({ s with heap := Function.update s.heap ref (some r') } : State).tock where
  heap_lt {ref' r''} h := by
    by_cases href : ref' = ref
    · subst href
      exact Nat.lt_succ_of_lt (hwf.heap_lt hr)
    · simp only [State.tock, Function.update_of_ne href] at h
      exact Nat.lt_succ_of_lt (hwf.heap_lt h)
  calls_lt h := Nat.lt_succ_of_lt (hwf.calls_lt h)
  store {key ref'} h := by
    by_cases href : ref' = ref
    · subst href
      exact ⟨r', by simp [State.tock]⟩
    · simpa only [State.tock, Function.update_of_ne href] using hwf.store h

theorem record?_eq_some {s : State} {key : Key} {ref : Nat} {r : Record} :
    s.record? key = some (ref, r) ↔ s.store.get? key = some ref ∧ s.heap ref = some r := by
  simp only [State.record?, Option.bind_eq_some_iff, Option.map_eq_some_iff, Prod.mk.injEq]
  constructor
  · rintro ⟨ref', hstore, r', hheap, rfl, rfl⟩
    exact ⟨hstore, hheap⟩
  · rintro ⟨hstore, hheap⟩
    exact ⟨ref, hstore, r, hheap, rfl, rfl⟩

theorem live?_eq_some {s : State} {now : Instant} {key : Key} {ref : Nat} {r : Record} :
    s.live? now key = some (ref, r) ↔ s.record? key = some (ref, r) ∧ r.live now = true := by
  simp [State.live?, Option.filter_eq_some_iff]

theorem select_eq_some {s : State} {now : Instant} {realm model : String} {c : Column}
    {key : Key} {ref : Nat} {r : Record} (h : select s now realm model c = some (key, ref, r)) :
    s.record? key = some (ref, r) ∧ key.realm = realm ∧ key.model = model ∧
      r.live now = true ∧ holds c key r = true := by
  unfold select at h
  obtain ⟨⟨key', ref'⟩, hfirst, hmap⟩ := Option.bind_eq_some_iff.mp h
  obtain ⟨r', hheap, heq⟩ := Option.map_eq_some_iff.mp hmap
  cases heq
  obtain ⟨hget, hp⟩ := OrderedMap.get?_of_findFirst? hfirst
  simp only [hheap, Bool.and_eq_true, decide_eq_true_eq] at hp
  exact ⟨record?_eq_some.mpr ⟨hget, hheap⟩, hp.1.1, hp.1.2, hp.2.1, hp.2.2⟩

theorem Move.wf {s s₁ : State} {now : Instant} {a : Action} {call : Nat} {o : Outcome}
    (h : Move s now a s₁ call o) (hwf : Wf s) : Wf s₁.tock := by
  cases h with
  | ended | foundFree | found => exact hwf.finish _
  | awaits h => exact hwf.suspend (h.call_le hwf) _
  | saved => exact hwf.save _ _ _
  | redeemed ha ho hlive =>
    exact hwf.consume (record?_eq_some.mp (live?_eq_some.mp hlive).1).2
  | removed p => exact (hwf.filter p).tock
  | changed hcall =>
    exact (hwf.withUser _ _ _).suspend (Nat.le_of_lt (hwf.calls_lt hcall)) _
  | revoked hcall =>
    exact (hwf.filter _).suspend (Nat.le_of_lt (hwf.calls_lt hcall)) _
  | user => exact (hwf.withUser _ _ _).tock

theorem update_eq_some {α : Type*} {f : Nat → Option α} {i j : Nat} {x : Option α} {y : α}
    (h : Function.update f i x j = some y) : (j ≠ i ∧ f j = some y) ∨ (j = i ∧ x = some y) := by
  by_cases hj : j = i
  · subst hj
    rw [Function.update_self] at h
    exact .inr ⟨rfl, h⟩
  · rw [Function.update_of_ne hj] at h
    exact .inl ⟨hj, h⟩

/-- A call that is suspended after a step was suspended there before it, or this step has
suspended it. -/
theorem Move.calls {s s₁ : State} {now : Instant} {a : Action} {call : Nat} {o : Outcome}
    (h : Move s now a s₁ call o) {call' : Nat} {c : Call} (hc : s₁.calls call' = some c) :
    (s.calls call' = some c ∧ ∀ key, o = .saved key → call' ≠ call) ∨
      (call' = call ∧ o = .suspended ∧ (Awaits s now a call c ∨
        ∃ kind realm accountId stage, c = .mutation kind realm accountId stage)) := by
  cases h with
  | ended | foundFree | found | saved =>
    rcases update_eq_some hc with ⟨hne, hold⟩ | ⟨-, hnone⟩
    · exact .inl ⟨hold, fun _ _ => hne⟩
    · cases hnone
  | awaits h =>
    rcases update_eq_some hc with ⟨-, hold⟩ | ⟨hcall, hnew⟩
    · exact .inl ⟨hold, nofun⟩
    · cases hnew
      exact .inr ⟨hcall, rfl, .inl h⟩
  | changed | revoked =>
    rcases update_eq_some hc with ⟨-, hold⟩ | ⟨hcall, hnew⟩
    · exact .inl ⟨hold, nofun⟩
    · cases hnew
      exact .inr ⟨hcall, rfl, .inr ⟨_, _, _, _, rfl⟩⟩
  | redeemed ha ho => exact .inl ⟨hc, by rintro key rfl; cases ho⟩
  | removed | user => exact .inl ⟨hc, nofun⟩

/-- What never changes in an object. -/
structure Record.Same (r r' : Record) : Prop where
  key : r'.key = r.key
  called : r'.called = r.called
  securityVersion : r'.securityVersion = r.securityVersion
  accountId : r'.payload.accountId = r.payload.accountId
  grantId : r'.payload.grantId = r.payload.grantId
  consumed : r.payload.isConsumed = true → r'.payload.isConsumed = true

theorem Record.Same.refl (r : Record) : r.Same r := ⟨rfl, rfl, rfl, rfl, rfl, id⟩

theorem isConsumed_consume (r : Record) (now : Instant) :
    (r.consume now).payload.isConsumed = true := by
  have hpos := now.seconds_pos
  simp only [Record.consume, Payload.isConsumed, decide_eq_true_eq]
  exact Int.ne_of_gt hpos

theorem Record.same_consume (r : Record) (now : Instant) : r.Same (r.consume now) :=
  ⟨rfl, rfl, rfl, rfl, rfl, fun _ => isConsumed_consume r now⟩

/-- An object that a step has made. -/
inductive Born (s : State) (now : Instant) (a : Action) (call : Nat) : Record → Prop
  | intro {key expiresIn next parent version}
      (hdecided : Decided s now key expiresIn a call next parent version)
      (hown : next.accountId.isSome → version.isSome)
      (hparent : ∀ g, next.grantId = some g →
        (s.live? now ⟨key.realm, "Grant", g⟩).map Prod.fst = parent ∧
        (s.live? now ⟨key.realm, "Grant", g⟩).bind (·.2.securityVersion) = version) :
      Born s now a call ⟨next, version, expiresIn.map (now.ms + ·), key, call⟩

/-- An object after a step was there before it, or the step has made it. -/
theorem Move.heap {s s₁ : State} {now : Instant} {a : Action} {call : Nat} {o : Outcome}
    (h : Move s now a s₁ call o) {ref : Nat} {r' : Record} (hr : s₁.heap ref = some r') :
    (∃ r, s.heap ref = some r ∧ r.Same r') ∨ (ref = s.tick ∧ Born s now a call r') := by
  cases h with
  | saved hdecided hown hparent =>
    rcases update_eq_some hr with ⟨-, hold⟩ | ⟨href, hnew⟩
    · exact .inl ⟨r', hold, .refl r'⟩
    · cases hnew
      exact .inr ⟨href, .intro hdecided hown hparent⟩
  | redeemed ha ho hlive =>
    rcases update_eq_some hr with ⟨-, hold⟩ | ⟨rfl, hnew⟩
    · exact .inl ⟨r', hold, .refl r'⟩
    · cases hnew
      exact .inl ⟨_, (record?_eq_some.mp (live?_eq_some.mp hlive).1).2, Record.same_consume _ _⟩
  | ended | awaits | foundFree | found | removed | changed | revoked | user =>
    exact .inl ⟨r', hr, .refl r'⟩

/-- No object is lost. -/
theorem Move.heap_kept {s s₁ : State} {now : Instant} {a : Action} {call : Nat} {o : Outcome}
    (h : Move s now a s₁ call o) (hwf : Wf s) {ref : Nat} {r : Record} (hr : s.heap ref = some r) :
    ∃ r', s₁.heap ref = some r' ∧ r.Same r' := by
  cases h with
  | saved =>
    have hne : ref ≠ (s.finish call).tick := Nat.ne_of_lt (hwf.heap_lt hr)
    exact ⟨r, (Function.update_of_ne hne _ _).trans hr, .refl r⟩
  | redeemed ha ho hlive =>
    rename_i key ref' r' _
    by_cases href : ref = ref'
    · subst href
      cases (record?_eq_some.mp (live?_eq_some.mp hlive).1).2.symm.trans hr
      exact ⟨_, Function.update_self _ _ _, Record.same_consume _ _⟩
    · exact ⟨r, (Function.update_of_ne href _ _).trans hr, .refl r⟩
  | ended | awaits | foundFree | found | removed | changed | revoked | user =>
    exact ⟨r, hr, .refl r⟩

/-- What a bucket holds after a step it held before it, or the step has saved it. -/
theorem Move.store {s s₁ : State} {now : Instant} {a : Action} {call : Nat} {o : Outcome}
    (h : Move s now a s₁ call o) {key : Key} {ref : Nat} (hr : s₁.store.get? key = some ref) :
    s.store.get? key = some ref ∨
      (ref = s.tick ∧ o = .saved key ∧ ∃ r, s₁.heap ref = some r ∧ r.key = key) := by
  have hfilter : ∀ {p}, (s.store.filter p).get? key = some ref → s.store.get? key = some ref := by
    intro p hp
    rw [OrderedMap.get?_filter] at hp
    exact (Option.filter_eq_some_iff.mp hp).1
  cases h with
  | saved =>
    simp only [State.save, State.finish, OrderedMap.get?_set] at hr
    split at hr
    · rename_i hkey
      cases hr
      exact .inr ⟨rfl, by rw [hkey], _, Function.update_self _ _ _, hkey.symm⟩
    · exact .inl hr
  | removed => exact .inl (hfilter hr)
  | revoked => exact .inl (hfilter hr)
  | ended | awaits | foundFree | found | redeemed | changed | user => exact .inl hr

theorem Move.tick {s s₁ : State} {now : Instant} {a : Action} {call : Nat} {o : Outcome}
    (h : Move s now a s₁ call o) : s₁.tock.tick = s.tick + 1 := by
  cases h <;> rfl

theorem Wf.step {s s' : State} {e : Instant × Action} {x : Nat × Outcome} (hwf : Wf s)
    (h : step s e = some (s', x)) : Wf s' := by
  obtain ⟨s₁, rfl, -, hmove⟩ := step_move h
  exact hmove.wf hwf

end AuthMe.Adapters.Memory

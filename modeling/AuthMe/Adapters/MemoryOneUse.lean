import AuthMe.Adapters.MemoryStep

/-!
# One-use artifacts in the in-memory adapter

`MemoryAdapter.upsert` decides whether the new payload is consumed before its `await`s
and writes it after them. A `consume` between the two is undone by the write
(`redeemed_twice`), and two saves of a new replay key both succeed. The PostgreSQL
adapter writes `COALESCE(oidc_records.consumed_at, EXCLUDED.consumed_at)` and
`DO NOTHING` instead.

`Careful` is the condition under which this cannot happen; `one_use` is what holds of
every run whose steps are careful.
-/

namespace AuthMe.Adapters.Memory

/-- The payload that a suspended `upsert` of the key will write. -/
def Call.payloadFor (key : Key) : Call → Option Payload
  | .upsertParent k next .. | .upsertOwn k next .. => if k = key then some next else none
  | .find .. | .mutation .. => none

def State.saving (s : State) (key : Key) (call : Nat) : Option Payload :=
  (s.calls call).bind (·.payloadFor key)

/-- An `upsert` of the key is suspended. -/
def State.savePending (s : State) (key : Key) : Bool :=
  (List.range s.tick).any fun call => (s.saving key call).isSome

/-- An `upsert` of the key is suspended and will write it without a mark. -/
def State.unmarkedSavePending (s : State) (key : Key) : Bool :=
  (List.range s.tick).any fun call =>
    match s.saving key call with
    | none => false
    | some next => !next.isConsumed

/-- The record of the key is there without a mark. -/
def State.unmarked (s : State) (key : Key) : Bool :=
  match s.record? key with
  | none => false
  | some (_, r) => !r.payload.isConsumed

/-- The record of the key is live. -/
def Alive (key : Key) (s : State) (e : Instant × Action) : Prop := (s.live? e.1 key).isSome

/-- The action is a new `upsert` of the key. -/
def Action.upserts (key : Key) : Action → Bool
  | .upsert k _ _ => k = key
  | _ => false

/-- The condition on a step. An unmarked record is not redeemed while an `upsert` is
suspended that will write it without a mark, and for `ReplayDetection` no `upsert` starts
while another one of the same key is suspended. -/
def Careful (key : Key) (s : State) (e : Instant × Action) : Prop :=
  ¬ (e.2.redeems key = true ∧ s.unmarked key = true ∧ s.unmarkedSavePending key = true) ∧
    ¬ (key.model = "ReplayDetection" ∧ e.2.upserts key = true ∧ s.savePending key = true)

instance (key : Key) (s : State) (e : Instant × Action) : Decidable (Careful key s e) :=
  inferInstanceAs (Decidable (_ ∧ _))

instance (key : Key) (s : State) (e : Instant × Action) : Decidable (Alive key s e) :=
  inferInstanceAs (Decidable (_ = true))

/-- The entry of a trace redeems the artifact. -/
def redeems (key : Key) (x : (Instant × Action) × Nat × Outcome) : Bool :=
  x.1.2.redeems key && x.2.2.isRedeemed

/-- The entry of a trace saves the artifact. -/
def saves (key : Key) (x : (Instant × Action) × Nat × Outcome) : Bool :=
  x.2.2 = .saved key

/-- The entry of a trace ends a query, with the given number, that returns the artifact. -/
def Finds (key : Key) (x : (Instant × Action) × Nat × Outcome) (call : Nat)
    (payload : Payload) : Prop :=
  x.2.1 = call ∧ ∃ ref, x.2.2 = .found key ref payload

/-- The life of an artifact in a run from the start: its record is saved where there is
no live one, and from then on it is live before each step. `C` is the condition that all
the steps meet. -/
inductive Life (C : State → Instant × Action → Prop) (key : Key) :
    List ((Instant × Action) × Nat × Outcome) → Prop
  | intro {users : String → String → Slot} {past tr : List ((Instant × Action) × Nat × Outcome)}
      {s₀ s s' : State} {e : Instant × Action} {o : Nat × Outcome}
      (hpast : Transition.Run step C (.initial users) past s₀)
      (hnew : s₀.live? e.1 key = none) (hC : C s₀ e) (hstep : step s₀ e = some (s, o))
      (hsave : saves key (e, o) = true)
      (hrun : Transition.Run step (fun s e => C s e ∧ Alive key s e) s tr s') :
      Life C key ((e, o) :: tr)

/-! ## Suspended saves -/

theorem savePending_eq_false {s : State} (hwf : Wf s) {key : Key} :
    s.savePending key = false ↔ ∀ call, s.saving key call = none := by
  simp only [State.savePending, List.any_eq_false, List.mem_range, Bool.not_eq_true,
    Option.isSome_eq_false_iff, Option.isNone_iff_eq_none]
  constructor
  · intro h call
    cases hc : s.calls call with
    | none => simp [State.saving, hc]
    | some c => exact h call (hwf.calls_lt hc)
  · intro h call _
    exact h call

theorem unmarkedSavePending_eq_false {s : State} (hwf : Wf s) {key : Key} :
    s.unmarkedSavePending key = false ↔
      ∀ call next, s.saving key call = some next → next.isConsumed = true := by
  simp only [State.unmarkedSavePending, List.any_eq_false, List.mem_range, Bool.not_eq_true]
  constructor
  · intro h call next hs
    obtain ⟨c, hc, -⟩ := Option.bind_eq_some_iff.mp hs
    simpa [hs] using h call (hwf.calls_lt hc)
  · intro h call _
    cases hs : s.saving key call with
    | none => rfl
    | some next => simpa using h call next hs

theorem saving_of_upsertParent {s : State} {key : Key} {call : Nat} {next : Payload}
    {expiresIn : Option Int} {parent : Nat} {version : Option Nat}
    (h : s.calls call = some (.upsertParent key next expiresIn parent version)) :
    s.saving key call = some next := by
  simp [State.saving, h, Call.payloadFor]

theorem saving_of_upsertOwn {s : State} {key : Key} {call : Nat} {next : Payload}
    {expiresIn : Option Int} {parent version : Option Nat}
    (h : s.calls call = some (.upsertOwn key next expiresIn parent version)) :
    s.saving key call = some next := by
  simp [State.saving, h, Call.payloadFor]

/-- Where the payload of a save comes from: a suspended save, or a new call, which takes
the mark over from the record that is there. -/
inductive Source (s : State) (now : Instant) (key : Key) : Action → Nat → Payload → Prop
  | pending {call next next'} (hs : s.saving key call = some next)
      (hc : next'.isConsumed = next.isConsumed) : Source s now key (.resume call) call next'
  | fresh {payload expiresIn} (hreplay : key.model = "ReplayDetection" → s.live? now key = none) :
      Source s now key (.upsert key payload expiresIn) s.tick
        (mergeConsumed (s.record? key) payload)

theorem Source.origin {s : State} {now : Instant} {key : Key} {a : Action} {call : Nat}
    {next : Payload} (h : Source s now key a call next) :
    (∃ next', s.saving key call = some next') ∨
      (a.upserts key = true ∧ (key.model = "ReplayDetection" → s.live? now key = none)) := by
  cases h with
  | pending hs => exact .inl ⟨_, hs⟩
  | fresh hreplay => exact .inr ⟨decide_eq_true rfl, hreplay⟩

theorem Ready.source {s : State} {now : Instant} {key : Key} {expiresIn : Option Int}
    {a : Action} {call : Nat} {next : Payload} {parent : Option Nat}
    (h : Ready s now key expiresIn a call next parent) : Source s now key a call next := by
  cases h with
  | fresh hreplay => exact .fresh hreplay
  | parent hcall => exact .pending (saving_of_upsertParent hcall) rfl

theorem Decided.source {s : State} {now : Instant} {key : Key} {expiresIn : Option Int}
    {a : Action} {call : Nat} {next : Payload} {parent version : Option Nat}
    (h : Decided s now key expiresIn a call next parent version) :
    Source s now key a call next := by
  cases h with
  | unowned h => exact h.source
  | owned hcall => exact .pending (saving_of_upsertOwn hcall) rfl

theorem payloadFor_eq_some {key k : Key} {next next' : Payload} :
    (if k = key then some next else none) = some next' ↔ k = key ∧ next = next' := by
  split <;> simp_all

/-- A save that is suspended after a step was suspended before it, or has a source. -/
theorem Move.saving {s s₁ : State} {now : Instant} {a : Action} {call : Nat} {o : Outcome}
    (h : Move s now a s₁ call o) {key : Key} {call' : Nat} {next : Payload}
    (hs : s₁.saving key call' = some next) :
    (s.saving key call' = some next ∧ (o = .saved key → call' ≠ call)) ∨
      (call' = call ∧ o = .suspended ∧ Source s now key a call next) := by
  obtain ⟨c, hc, hpayload⟩ := Option.bind_eq_some_iff.mp hs
  rcases h.calls hc with ⟨hold, hne⟩ | ⟨hcall, hsusp, hnew⟩
  · exact .inl ⟨by simpa [State.saving, hold] using hpayload, hne key⟩
  · refine .inr ⟨hcall, hsusp, ?_⟩
    rcases hnew with hawaits | ⟨kind, realm, accountId, stage, rfl⟩
    · cases hawaits with
      | parent hreplay =>
        obtain ⟨rfl, rfl⟩ := payloadFor_eq_some.mp hpayload
        exact .fresh hreplay
      | own hready =>
        obtain ⟨rfl, rfl⟩ := payloadFor_eq_some.mp hpayload
        exact hready.source
      | find | mutation => cases hpayload
    · cases hpayload

/-! ## The record of a key -/

/-- All that a step can do to the record of a key. -/
inductive Change (key : Key) (s s' : State) (now : Instant) (a : Action) (call : Nat)
    (o : Outcome) : Prop
  | kept (h : s'.record? key = s.record? key)
      (hr : ¬ (a.redeems key = true ∧ o.isRedeemed = true)) (hs : o ≠ .saved key)
  | removed (h : s'.record? key = none)
      (hr : ¬ (a.redeems key = true ∧ o.isRedeemed = true)) (hs : o ≠ .saved key)
  | marked {ref r} (h : s.record? key = some (ref, r))
      (h' : s'.record? key = some (ref, r.consume now))
      (hr : a.redeems key = true → s.live? now key = some (ref, r) ∧ r.payload.isConsumed = false)
      (hs : o ≠ .saved key)
  | saved {r} (hsource : Source s now key a call r.payload)
      (h' : s'.record? key = some (s.tick, r))
      (hr : ¬ (a.redeems key = true ∧ o.isRedeemed = true)) (hs : o = .saved key)

theorem not_redeems_of_source {s : State} {now : Instant} {key : Key} {a : Action} {call : Nat}
    {next : Payload} (h : Source s now key a call next) (key' : Key) :
    a.redeems key' = false := by
  cases h <;> rfl

/-- A step that leaves the heap alone and filters the buckets keeps or removes a record. -/
theorem change_of_filter {key : Key} {s s₁ : State} {now : Instant} {a : Action} {call : Nat}
    {o : Outcome} (p : Key → Nat → Bool) (hheap : s₁.heap = s.heap)
    (hstore : s₁.store = s.store.filter p) (hr : ¬ (a.redeems key = true ∧ o.isRedeemed = true))
    (hs : o ≠ .saved key) : Change key s s₁.tock now a call o := by
  have hget : s₁.tock.record? key = ((s.store.get? key).filter (p key)).bind
      fun ref => (s.heap ref).map fun r => (ref, r) := by
    rw [← OrderedMap.get?_filter, ← hstore, ← hheap]
    rfl
  cases hk : s.store.get? key with
  | none => exact .kept (by rw [hget, hk]; simp [State.record?, hk]) hr hs
  | some ref =>
    by_cases hp : p key ref = true
    · exact .kept (by rw [hget, hk]; simp [Option.filter, hp, State.record?, hk]) hr hs
    · exact .removed (by rw [hget, hk]; simp [Option.filter, hp]) hr hs

theorem Move.change {s s₁ : State} {now : Instant} {a : Action} {call : Nat} {o : Outcome}
    (h : Move s now a s₁ call o) (hwf : Wf s) (key : Key) :
    Change key s s₁.tock now a call o := by
  cases h with
  | ended ho =>
    exact .kept rfl (by simp [Outcome.isRedeemed_of_isQuiet ho]) (by rintro rfl; cases ho)
  | awaits | changed =>
    exact .kept rfl (by simp [Outcome.isRedeemed]) nofun
  | foundFree | found => exact .kept rfl (by simp [Outcome.isRedeemed]) nofun
  | user => exact .kept rfl (by simp [Action.redeems]) nofun
  | saved hdecided =>
    rename_i key' expiresIn next parent version _ _
    by_cases hk : key' = key
    · subst hk
      refine .saved (r := ⟨next, version, expiresIn.map (now.ms + ·), key', call⟩) hdecided.source ?_
        (by simp [not_redeems_of_source hdecided.source]) rfl
      exact record?_eq_some.mpr ⟨OrderedMap.get?_set_self _ _ _, Function.update_self _ _ _⟩
    · refine .kept ?_ (by simp [Outcome.isRedeemed]) (by simp [hk])
      have hne : ∀ {ref r}, s.heap ref = some r → ref ≠ s.tick := fun hr =>
        Nat.ne_of_lt (hwf.heap_lt hr)
      simp only [State.tock, State.record?, State.save, State.finish,
        OrderedMap.get?_set_of_ne _ (Ne.symm hk)]
      cases hst : s.store.get? key with
      | none => rfl
      | some ref =>
        obtain ⟨r, hr⟩ := hwf.store hst
        simp [Function.update_of_ne (hne hr)]
  | redeemed ha ho hlive hfree =>
    rename_i key' ref r
    obtain ⟨hrec, -⟩ := live?_eq_some.mp hlive
    have hkeys : a.redeems key = true → key' = key := by
      intro hr
      cases a <;> simp_all [Action.redeems]
    have hnotsaved : o ≠ .saved key := by
      rintro rfl
      cases ho
    by_cases hmine : s.store.get? key = some ref
    · refine .marked (record?_eq_some.mpr ⟨hmine, (record?_eq_some.mp hrec).2⟩)
        (record?_eq_some.mpr ⟨hmine, by simp [State.tock]⟩) (fun hr => ?_) hnotsaved
      cases hkeys hr
      exact ⟨hlive, hfree⟩
    · refine .kept ?_ (fun hr => ?_) hnotsaved
      · simp only [State.tock, State.record?]
        cases hst : s.store.get? key with
        | none => rfl
        | some ref' =>
          have hne : ref' ≠ ref := by
            rintro rfl
            exact hmine hst
          simp [Function.update_of_ne hne]
      · cases hkeys hr.1
        exact hmine (record?_eq_some.mp hrec).1
  | removed p ha => exact change_of_filter p rfl rfl (by simp [ha]) nofun
  | revoked =>
    exact change_of_filter (fun k ref => !doomed s _ _ k ref) rfl rfl
      (by simp [Outcome.isRedeemed]) nofun

/-! ## Redemption -/

/-- The record of the key is marked as consumed, and so is every payload that a suspended
`upsert` of the key will write. -/
structure Marked (key : Key) (s : State) : Prop where
  record : ∀ {ref r}, s.record? key = some (ref, r) → r.payload.isConsumed = true
  saving : ∀ {call next}, s.saving key call = some next → next.isConsumed = true

theorem isConsumed_mergeConsumed {x : Nat × Record} (h : x.2.payload.isConsumed = true)
    (payload : Payload) : (mergeConsumed (some x) payload).isConsumed = true := by
  simp only [mergeConsumed, h, Bool.true_and]
  split
  · exact h
  · simp_all

/-- While the record is there, every save takes the mark over. -/
theorem Marked.source {key : Key} {s : State} (hm : Marked key s) {now : Instant} {a : Action}
    {call : Nat} {next : Payload} {x : Nat × Record} (hx : s.record? key = some x)
    (h : Source s now key a call next) : next.isConsumed = true := by
  cases h with
  | pending hs hc => rw [hc, hm.saving hs]
  | fresh =>
    obtain ⟨ref, r⟩ := x
    rw [hx]
    exact isConsumed_mergeConsumed (hm.record hx) _

theorem Marked.step {key : Key} {s s' : State} {e : Instant × Action} {o : Nat × Outcome}
    (hm : Marked key s) (hwf : Wf s) (hlive : Alive key s e) (h : step s e = some (s', o)) :
    Marked key s' := by
  obtain ⟨x, hx⟩ := Option.isSome_iff_exists.mp hlive
  have hrec := (live?_eq_some.mp hx).1
  obtain ⟨s₁, rfl, -, hmove⟩ := step_move h
  constructor
  · intro ref r hr
    cases hmove.change hwf key with
    | kept hk => exact hm.record (by rw [← hk]; exact hr)
    | removed hnone => simp [hnone] at hr
    | marked hold hnew =>
      rw [hnew] at hr
      cases hr
      exact isConsumed_consume _ _
    | saved hsource hnew =>
      rw [hnew] at hr
      cases hr
      exact hm.source hrec hsource
  · intro call next hs
    rcases hmove.saving hs with ⟨hold, -⟩ | ⟨-, -, hsource⟩
    · exact hm.saving hold
    · exact hm.source hrec hsource

theorem redeemed_record {key : Key} {s s' : State} {e : Instant × Action} {o : Nat × Outcome}
    (hwf : Wf s) (h : step s e = some (s', o)) (hr : redeems key (e, o) = true) :
    ∃ ref r, s.record? key = some (ref, r) ∧ r.payload.isConsumed = false ∧
      s'.record? key = some (ref, r.consume e.1) := by
  simp only [redeems, Bool.and_eq_true] at hr
  obtain ⟨s₁, rfl, -, hmove⟩ := step_move h
  cases hmove.change hwf key with
  | kept _ hno => exact absurd hr hno
  | removed _ hno => exact absurd hr hno
  | saved _ _ hno => exact absurd hr hno
  | marked hold hnew hfree => exact ⟨_, _, hold, (hfree hr.1).2, hnew⟩

theorem not_marked_of_redeems {key : Key} {s s' : State} {e : Instant × Action}
    {o : Nat × Outcome} (hwf : Wf s) (h : step s e = some (s', o))
    (hr : redeems key (e, o) = true) : ¬ Marked key s := by
  intro hm
  obtain ⟨ref, r, hold, hfree, -⟩ := redeemed_record hwf h hr
  rw [hm.record hold] at hfree
  cases hfree

/-- A careful redemption leaves no unmarked payload behind. -/
theorem marked_of_redeems {key : Key} {s s' : State} {e : Instant × Action} {o : Nat × Outcome}
    (hwf : Wf s) (hcareful : Careful key s e) (h : step s e = some (s', o))
    (hr : redeems key (e, o) = true) : Marked key s' := by
  obtain ⟨ref, r, hold, hfree, hnew⟩ := redeemed_record hwf h hr
  simp only [redeems, Bool.and_eq_true] at hr
  have hpending : s.unmarkedSavePending key = false := by
    by_contra hp
    exact hcareful.1 ⟨hr.1, by simp [State.unmarked, hold, hfree], by simpa using hp⟩
  obtain ⟨s₁, rfl, -, hmove⟩ := step_move h
  constructor
  · intro ref' r' hr'
    rw [hnew] at hr'
    cases hr'
    exact isConsumed_consume _ _
  · intro call next hs
    rcases hmove.saving hs with ⟨hold', -⟩ | ⟨-, -, hsource⟩
    · exact (unmarkedSavePending_eq_false hwf).mp hpending _ _ hold'
    · rw [not_redeems_of_source hsource] at hr
      cases hr.1

/-! ## Queries -/

/-- A query of the key that is suspended after a step was suspended before it, or has just
selected the record of the key. -/
theorem Move.findCall {s s₁ : State} {now : Instant} {a : Action} {call : Nat} {o : Outcome}
    (h : Move s now a s₁ call o) {key : Key} {call' ref : Nat} {version : Option Nat}
    (hs : s₁.calls call' = some (.find key ref version)) :
    s.calls call' = some (.find key ref version) ∨ ∃ r, s.record? key = some (ref, r) := by
  rcases h.calls hs with ⟨hold, -⟩ | ⟨-, -, hawaits | ⟨_, _, _, _, hc⟩⟩
  · exact .inl hold
  · cases hawaits with
    | find hselect => exact .inr ⟨_, (select_eq_some hselect).1⟩
  · cases hc

/-- After the redemption of step `n`: the queries that started later have selected a
consumed object. -/
structure Shown (key : Key) (n : Nat) (s : State) : Prop where
  wf : Wf s
  marked : Marked key s
  later : n < s.tick
  finds : ∀ {call ref version}, n < call → s.calls call = some (.find key ref version) →
    ∃ r, s.heap ref = some r ∧ r.payload.isConsumed = true

theorem Shown.step {key : Key} {n : Nat} {s s' : State} {e : Instant × Action}
    {o : Nat × Outcome} (hs : Shown key n s) (hlive : Alive key s e)
    (h : step s e = some (s', o)) : Shown key n s' := by
  have hwf' := hs.wf.step h
  have hm' := hs.marked.step hs.wf hlive h
  obtain ⟨s₁, rfl, -, hmove⟩ := step_move h
  refine ⟨hwf', hm', by rw [hmove.tick]; exact Nat.lt_succ_of_lt hs.later, ?_⟩
  intro call ref version hcall hfind
  obtain ⟨r, hheap, hc⟩ : ∃ r, s.heap ref = some r ∧ r.payload.isConsumed = true := by
    rcases hmove.findCall hfind with hold | ⟨r, hr⟩
    · exact hs.finds hcall hold
    · exact ⟨r, (record?_eq_some.mp hr).2, hs.marked.record hr⟩
  obtain ⟨r', hheap', hsame⟩ := hmove.heap_kept hs.wf hheap
  exact ⟨r', hheap', hsame.consumed hc⟩

/-- A query that started after the redemption shows the record as consumed. -/
theorem Shown.found {key : Key} {n : Nat} {s s' : State} {e : Instant × Action}
    {o : Nat × Outcome} {call : Nat} {payload : Payload} (hs : Shown key n s)
    (h : Memory.step s e = some (s', o)) (hf : Finds key (e, o) call payload) (hcall : n < call) :
    payload.isConsumed = true := by
  obtain ⟨now, a⟩ := e
  obtain ⟨number, o⟩ := o
  obtain ⟨hnumber, ref, hout⟩ := hf
  obtain ⟨s₁, rfl, -, hmove⟩ := step_move h
  dsimp only at hnumber hout
  rw [hnumber, hout] at hmove
  cases hmove with
  | ended ho => cases ho
  | redeemed _ ho => cases ho
  | foundFree hselect => exact hs.marked.record (select_eq_some hselect).1
  | found hsusp hr =>
    obtain ⟨r, hheap, hc⟩ := hs.finds hcall hsusp
    cases hr.symm.trans hheap
    exact hc

theorem Shown.run {key : Key} {n : Nat} {C : State → Instant × Action → Prop} {s s' : State}
    {tr : List ((Instant × Action) × Nat × Outcome)} (hs : Shown key n s)
    (hrun : Transition.Run Memory.step (fun s e => C s e ∧ Alive key s e) s tr s') :
    ∀ y ∈ tr, ∀ call payload, n < call → Finds key y call payload →
      payload.isConsumed = true := by
  induction hrun with
  | nil => simp
  | cons hG hstep _ ih =>
    intro y hy call payload hcall hf
    rcases List.mem_cons.mp hy with rfl | hy
    · exact hs.found hstep hf hcall
    · exact ih (hs.step hG.2 hstep) y hy call payload hcall hf

theorem shown_of_redeems {key : Key} {s s' : State} {e : Instant × Action} {o : Nat × Outcome}
    (hwf : Wf s) (hcareful : Careful key s e) (h : step s e = some (s', o))
    (hr : redeems key (e, o) = true) : Shown key o.1 s' := by
  have hwf' := hwf.step h
  have hm' := marked_of_redeems hwf hcareful h hr
  obtain ⟨s₁, rfl, hnumber, hmove⟩ := step_move h
  simp only [redeems, Bool.and_eq_true] at hr
  have hcall : o.1 = s.tick := by
    rw [hnumber]
    cases ha : e.2 <;> simp_all [Action.redeems, State.callOf]
  refine ⟨hwf', hm', by rw [hmove.tick, hcall]; exact Nat.lt_succ_self _, ?_⟩
  intro call ref version hlater hfind
  have := hwf'.calls_lt hfind
  rw [hmove.tick] at this
  omega

/-! ## Replay keys -/

/-- At most one `upsert` of the key is suspended. -/
structure Alone (key : Key) (s : State) : Prop where
  wf : Wf s
  unique : ∀ {call call' next next'}, s.saving key call = some next →
    s.saving key call' = some next' → call = call'

theorem Alone.step {key : Key} {s s' : State} {e : Instant × Action} {o : Nat × Outcome}
    (hs : Alone key s) (hmodel : key.model = "ReplayDetection") (hcareful : Careful key s e)
    (h : step s e = some (s', o)) : Alone key s' := by
  have hwf' := hs.wf.step h
  obtain ⟨s₁, rfl, -, hmove⟩ := step_move h
  refine ⟨hwf', ?_⟩
  -- a save that has just been suspended was the only one before, or there was none
  have hnew : ∀ {call next}, Source s e.1 key e.2 o.1 next → s.saving key call ≠ none →
      call = o.1 := by
    intro call next hsource hcall
    obtain ⟨next', hs'⟩ := Option.ne_none_iff_exists'.mp hcall
    rcases hsource.origin with ⟨_, hpending⟩ | ⟨hfresh, -⟩
    · exact hs.unique hs' hpending
    · refine absurd ⟨hmodel, hfresh, ?_⟩ hcareful.2
      by_contra hp
      rw [(savePending_eq_false hs.wf).mp (by simpa using hp)] at hs'
      cases hs'
  intro call call' next next' h1 h2
  rcases hmove.saving h1 with ⟨hold1, -⟩ | ⟨hcall1, -, hsource1⟩
  · rcases hmove.saving h2 with ⟨hold2, -⟩ | ⟨hcall2, -, hsource2⟩
    · exact hs.unique hold1 hold2
    · rw [hcall2]
      exact hnew hsource2 (by simp [hold1])
  · rcases hmove.saving h2 with ⟨hold2, -⟩ | ⟨hcall2, -, -⟩
    · rw [hcall1]
      exact (hnew hsource1 (by simp [hold2])).symm
    · rw [hcall1, hcall2]

/-- No `upsert` of the key is suspended. -/
structure Silent (key : Key) (s : State) : Prop where
  wf : Wf s
  none : ∀ call, s.saving key call = none

/-- The step that saves the key ends the only `upsert` of it. -/
theorem Alone.silent {key : Key} {s s' : State} {e : Instant × Action} {o : Nat × Outcome}
    (hs : Alone key s) (hmodel : key.model = "ReplayDetection") (hcareful : Careful key s e)
    (h : Memory.step s e = some (s', o)) (hsave : saves key (e, o) = true) : Silent key s' := by
  have halone := hs.step hmodel hcareful h
  obtain ⟨s₁, rfl, -, hmove⟩ := step_move h
  have hout : o.2 = .saved key := by simpa [saves] using hsave
  refine ⟨halone.wf, fun call => ?_⟩
  by_contra hne
  obtain ⟨next, hnext⟩ := Option.ne_none_iff_exists'.mp hne
  rcases hmove.saving hnext with ⟨hold, hother⟩ | ⟨-, hsusp, -⟩
  · refine hother hout ?_
    cases hmove.change hs.wf key with
    | kept _ _ hno => exact absurd hout hno
    | removed _ _ hno => exact absurd hout hno
    | marked _ _ _ hno => exact absurd hout hno
    | saved hsource =>
      rcases hsource.origin with ⟨_, hpending⟩ | ⟨hfresh, -⟩
      · exact hs.unique hold hpending
      · refine absurd ⟨hmodel, hfresh, ?_⟩ hcareful.2
        by_contra hp
        rw [(savePending_eq_false hs.wf).mp (by simpa using hp)] at hold
        cases hold
  · rw [hout] at hsusp
    cases hsusp

theorem Silent.not_source {key : Key} {s : State} {now : Instant} {a : Action} {call : Nat}
    {next : Payload} (hs : Silent key s) (hmodel : key.model = "ReplayDetection")
    (hlive : Alive key s (now, a)) : ¬ Source s now key a call next := by
  intro h
  rcases h.origin with ⟨_, hpending⟩ | ⟨-, hreplay⟩
  · rw [hs.none] at hpending
    cases hpending
  · rw [Alive, hreplay hmodel] at hlive
    cases hlive

theorem Silent.step {key : Key} {s s' : State} {e : Instant × Action} {o : Nat × Outcome}
    (hs : Silent key s) (hmodel : key.model = "ReplayDetection") (hlive : Alive key s e)
    (h : step s e = some (s', o)) : Silent key s' ∧ saves key (e, o) = false := by
  have hwf' := hs.wf.step h
  obtain ⟨s₁, rfl, -, hmove⟩ := step_move h
  refine ⟨⟨hwf', fun call => ?_⟩, ?_⟩
  · by_contra hne
    obtain ⟨next, hnext⟩ := Option.ne_none_iff_exists'.mp hne
    rcases hmove.saving hnext with ⟨hold, -⟩ | ⟨-, -, hsource⟩
    · rw [hs.none] at hold
      cases hold
    · exact hs.not_source hmodel hlive hsource
  · by_contra hsave
    have hout : o.2 = .saved key := by simpa [saves] using hsave
    cases hmove.change hs.wf key with
    | kept _ _ hno => exact hno hout
    | removed _ _ hno => exact hno hout
    | marked _ _ _ hno => exact hno hout
    | saved hsource => exact hs.not_source hmodel hlive hsource

/-! ## The law -/

/-- What is expected of a one-use artifact in its life: it is redeemed at most once, the
queries that start after the redemption show it as consumed, and for `ReplayDetection` at
most one `upsert` succeeds. -/
structure OneUse (key : Key) (tr : List ((Instant × Action) × Nat × Outcome)) : Prop where
  once : tr.countP (redeems key) ≤ 1
  shown : ∀ before x after, tr = before ++ x :: after → redeems key x = true →
    ∀ y ∈ after, ∀ call payload, x.2.1 < call → Finds key y call payload →
      payload.isConsumed = true
  replay : key.model = "ReplayDetection" → tr.countP (saves key) ≤ 1

theorem redeems_of_saves {key : Key} {x : (Instant × Action) × Nat × Outcome}
    (h : saves key x = true) : redeems key x = false := by
  have hout : x.2.2 = .saved key := by simpa [saves] using h
  simp [redeems, hout, Outcome.isRedeemed]

/-- The invariant of all runs, as an invariant of the careful runs of a life. -/
theorem wf_of_run {C : State → Instant × Action → Prop} {s s' : State}
    {tr : List ((Instant × Action) × Nat × Outcome)} (hrun : Transition.Run step C s tr s')
    (hwf : Wf s) : Wf s' :=
  hrun.invariant (fun _ _ _ _ hwf _ h => hwf.step h) hwf

/-- **One-use artifacts in memory.** In every run whose steps are careful, the life of an
artifact is as expected. -/
theorem one_use_of_careful {key : Key} {tr : List ((Instant × Action) × Nat × Outcome)}
    (hlife : Life (Careful key) key tr) : OneUse key tr := by
  obtain ⟨hpast, hnew, hcareful, hcreate, hsave, hrun⟩ := hlife
  rename_i users past life s₀ s s' e o
  have hwf₀ : Wf s₀ := wf_of_run hpast (wf_initial users)
  have hwf : Wf s := hwf₀.step hcreate
  have hfirst := redeems_of_saves hsave
  refine ⟨?_, ?_, ?_⟩
  · rw [List.countP_cons_of_neg (by simp [hfirst])]
    exact hrun.count_le_one (I := Wf) (F := Marked key)
      (fun _ _ _ _ hwf _ h => hwf.step h)
      (fun _ _ _ _ hwf _ h hr => not_marked_of_redeems hwf h hr)
      (fun _ _ _ _ hwf hG h hr => marked_of_redeems hwf hG.1 h hr)
      (fun _ _ _ _ hwf hG h hm => hm.step hwf hG.2 h) hwf
  · intro before x after htr hr
    cases before with
    | nil =>
      cases htr
      rw [hfirst] at hr
      cases hr
    | cons y before =>
      cases htr
      obtain ⟨m, m', hbefore, hG, hstep, hafter⟩ := hrun.split_at
      exact (shown_of_redeems (wf_of_run hbefore hwf) hG.1 hstep hr).run hafter
  · intro hmodel
    have halone : Alone key s₀ :=
      hpast.invariant (fun _ _ _ _ hI hG h => hI.step hmodel hG h)
        ⟨wf_initial users, fun h => by cases h⟩
    have hnone : life.countP (saves key) = 0 :=
      hrun.count_eq_zero (I := Silent key) (F := fun _ => True)
        (fun _ _ _ _ hI hG h => (hI.step hmodel hG.2 h).1)
        (fun _ _ _ _ hI hG h hs => by
          rw [(hI.step hmodel hG.2 h).2] at hs
          cases hs)
        (fun _ _ _ _ _ _ _ _ => trivial) (halone.silent hmodel hcareful hcreate hsave) trivial
    exact Nat.le_of_eq (by rw [List.countP_cons_of_pos hsave, hnone])

/-! ## Runs that are not careful -/

/-- Every account is enabled, at version `0`. -/
def somebody : String → String → Slot := fun _ _ => .live ⟨true, 0⟩

def token : Key := ⟨"master", "RefreshToken", "token"⟩

def jti : Key := ⟨"master", "ReplayDetection", "jti"⟩

def alice : Payload := { accountId := some "alice" }

/-- A trace of steps that all happen at the same time. -/
def atOnce (tr : List (Action × Nat × Outcome)) : List ((Instant × Action) × Nat × Outcome) :=
  tr.map fun x => ((⟨1000, by decide⟩, x.1), x.2)

/-- A token is consumed while it is being saved again. The save takes the consumption
back: a query shows the token as new, and it is consumed a second time. -/
def consumedTwice : List ((Instant × Action) × Nat × Outcome) :=
  atOnce [(.resume 0, 0, .saved token), (.upsert token alice none, 2, .suspended),
    (.consume token, 3, .done), (.resume 2, 2, .saved token),
    (.find "master" "RefreshToken" (.id "token"), 5, .suspended),
    (.resume 5, 5, .found token 4 alice), (.consume token, 7, .done)]

/-- Two saves of a replay key overlap. -/
def savedTwice : List ((Instant × Action) × Nat × Outcome) :=
  atOnce [(.resume 0, 0, .saved jti), (.resume 1, 1, .saved jti)]

theorem life_consumedTwice : Life Transition.Always token consumedTwice := by
  have hpast : Transition.Run step Transition.Always (.initial somebody)
      (atOnce [(.upsert token alice none, 0, .suspended)]) _ := .single trivial rfl
  exact .intro hpast rfl trivial rfl rfl
    (.cons ⟨trivial, rfl⟩ rfl (.cons ⟨trivial, rfl⟩ rfl (.cons ⟨trivial, rfl⟩ rfl
      (.cons ⟨trivial, rfl⟩ rfl (.cons ⟨trivial, rfl⟩ rfl (.cons ⟨trivial, rfl⟩ rfl (.nil _)))))))

theorem life_savedTwice : Life Transition.Always jti savedTwice := by
  have hpast : Transition.Run step Transition.Always (.initial somebody)
      (atOnce [(.upsert jti alice none, 0, .suspended), (.upsert jti alice none, 1, .suspended)])
      _ := .cons trivial rfl (.single trivial rfl)
  exact .intro hpast rfl trivial rfl rfl (.cons ⟨trivial, rfl⟩ rfl (.nil _))

/-- Without the condition each part of the law fails. -/
theorem not_one_use :
    (Life Transition.Always token consumedTwice ∧
      consumedTwice.countP (redeems token) = 2 ∧ ¬ OneUse token consumedTwice) ∧
    Life Transition.Always jti savedTwice ∧ savedTwice.countP (saves jti) = 2 := by
  refine ⟨⟨life_consumedTwice, by decide, fun h => ?_⟩, life_savedTwice, by decide⟩
  have hshown := h.shown (consumedTwice.take 2) _ (consumedTwice.drop 3) rfl rfl
    _ (List.mem_cons_of_mem _ (List.mem_cons_of_mem _ List.mem_cons_self)) 5 alice (by decide)
    ⟨rfl, 4, rfl⟩
  cases hshown

/-- The same token, consumed after the save has ended. -/
def consumedOnce : List ((Instant × Action) × Nat × Outcome) :=
  atOnce [(.resume 0, 0, .saved token), (.upsert token alice none, 2, .suspended),
    (.resume 2, 2, .saved token), (.consume token, 4, .done),
    (.consume token, 5, .failed (.invalidGrant "one-use grant artifact was already consumed"))]

theorem life_consumedOnce : Life (Careful token) token consumedOnce := by
  have hpast : Transition.Run step (Careful token) (.initial somebody)
      (atOnce [(.upsert token alice none, 0, .suspended)]) _ := .single (by decide) rfl
  exact .intro hpast rfl (by decide) rfl rfl
    (.cons ⟨by decide, rfl⟩ rfl (.cons ⟨by decide, rfl⟩ rfl (.cons ⟨by decide, rfl⟩ rfl
      (.cons ⟨by decide, rfl⟩ rfl (.nil _)))))

theorem one_use_consumedOnce : OneUse token consumedOnce :=
  one_use_of_careful life_consumedOnce

end AuthMe.Adapters.Memory

import Mathlib.Algebra.Order.Ring.Nat
import AuthMe.Federation.KeyedLock

/-!
# The keyed lock makes progress

A call that waits is behind a call on its key that runs, or it can start. An operation that runs
ends by itself, or it has called on a second key, where operations only end by themselves: the keys
on which an operation may go on to another key (`outer`) are apart from the keys that it goes on to.

Every step other than a new call takes a unit of `work`, so a run without new calls is bounded, and
where it can not go on all calls are done.
-/

namespace AuthMe.KeyedLock

variable {κ : Type} [DecidableEq κ]

/-- Not a new call from outside. -/
def Event.isOwn : Event κ → Bool
  | ask _ _ => false
  | _ => true

/-- A promise is told about another one. -/
def Event.isReaction : Event κ → Bool
  | react _ | settle _ => true
  | _ => false

/-! ## Handing over -/

section

variable {s s' : State κ} {i j : Nat} {c c' d : Call κ} {lockKey : κ} {e : Event κ}

omit [DecidableEq κ] in
theorem exists_first (hi : s.calls[i]? = some c) (hpending : c.phase.isDone = false) :
    ∃ j d, s.calls[j]? = some d ∧ d.key = c.key ∧ d.phase.isDone = false ∧
      EarlierDone s j d.key := by
  induction i using Nat.strongRecOn generalizing c with
  | ind i ih =>
    by_cases hfirst : EarlierDone s i c.key
    · exact ⟨i, c, hi, rfl, hpending, hfirst⟩
    · unfold EarlierDone at hfirst
      push Not at hfirst
      obtain ⟨m, p, hm, hp, hkey, hnot⟩ := hfirst
      obtain ⟨j, d, hj, hdkey, hrest⟩ := ih m hm hp (Bool.eq_false_iff.mpr hnot)
      exact ⟨j, d, hj, hdkey.trans hkey, hrest⟩

/-- Only promises are told about others, and `queued` of the call `i` is fulfilled after it. -/
def Settles (s : State κ) (i : Nat) (tr : List (Event κ × Unit)) (s' : State κ) : Prop :=
  Transition.Run KeyedLock.step (fun _ e => e.isReaction = true) s tr s' ∧
    s'.fulfilled (some i) = true ∧
    ∀ (m : Nat) (q : Call κ), m ≠ i → s.calls[m]? = some q → s'.calls[m]? = some q

omit [DecidableEq κ] in
theorem get_put_of_ne (hc : s.calls[i]? = some c) {m : Nat} {q : Call κ} (hm : m ≠ i)
    (hq : s.calls[m]? = some q) : (s.put i c').calls[m]? = some q := by
  rw [get_put hc, if_neg (Ne.symm hm)]
  exact hq

theorem settles_of_reacted (hc : s.calls[i]? = some c) (hreacted : c.reacted = true)
    (hdone : c.phase.isDone = true) : ∃ tr s', Settles s i tr s' := by
  cases hsettled : c.settled with
  | true =>
    refine ⟨[], s, .nil s, ?_, fun m q _ hq => hq⟩
    simp [State.fulfilled, hc, hsettled]
  | false =>
    have hstep := (Steps.settle hc hreacted hsettled hdone).step
    refine ⟨_, _, .single rfl hstep, ?_, fun m q => get_put_of_ne hc⟩
    simp [State.fulfilled, get_put hc]

/-- A call that is done can always settle. -/
theorem Sound.settles (h : Sound s) (hc : s.calls[i]? = some c)
    (hdone : c.phase.isDone = true) : ∃ tr s', Settles s i tr s' := by
  cases hreacted : c.reacted with
  | true => exact settles_of_reacted hc hreacted hdone
  | false =>
    have hfulfilled : s.fulfilled c.predecessor = true := by
      apply h.chain.started hc
      cases hphase : c.phase with
      | done ok => rfl
      | waiting =>
        rw [hphase] at hdone
        cases hdone
      | running child => rfl
    have hstep := (Steps.react hc hreacted hfulfilled).step
    have hc' : (s.put i { c with reacted := true }).calls[i]? =
        some { c with reacted := true } := by
      rw [get_put hc, if_pos rfl]
    obtain ⟨tr, s', hrun, hsettled, hothers⟩ := settles_of_reacted hc' rfl hdone
    refine ⟨_ :: tr, s', .cons rfl hstep hrun, hsettled, ?_⟩
    intro m q hm hq
    exact hothers m q hm (get_put_of_ne hc hm hq)

/-- After its `await` a call runs its operation. -/
theorem resume_runs (hc : s.calls[i]? = some c) (hwaiting : c.phase = .waiting)
    (hfulfilled : s.fulfilled c.predecessor = true) :
    ∃ s' c', KeyedLock.step s (.resume i) = some (s', ()) ∧ s'.calls[i]? = some c' ∧
      c'.phase.isRunning = true := by
  cases hinner : c.inner with
  | none =>
    refine ⟨_, { c with phase := .running none }, (Steps.resume hc hwaiting hfulfilled hinner).step,
      ?_, ?_⟩
    · rw [get_put hc, if_pos rfl]
    · rfl
  | some lockKey =>
    refine ⟨_, { c with phase := .running (some s.calls.length) },
      (Steps.resumeInner hc hwaiting hfulfilled hinner).step, ?_, ?_⟩
    · apply get_ask_of_get
      rw [get_put hc, if_pos rfl]
    · rfl

/-- A call that waits while the calls before it are done is told so, and starts. -/
theorem Sound.can_start (h : Sound s) (hj : s.calls[j]? = some d) (hwaiting : d.phase = .waiting)
    (hearlier : EarlierDone s j d.key) :
    ∃ tr s' s'' d', Transition.Run KeyedLock.step (fun _ e => e.isReaction = true) s tr s' ∧
      KeyedLock.step s' (.resume j) = some (s'', ()) ∧ s''.calls[j]? = some d' ∧
      d'.phase.isRunning = true := by
  cases hpred : d.predecessor with
  | none =>
    have hfulfilled : s.fulfilled d.predecessor = true := by
      rw [hpred]
      rfl
    obtain ⟨s'', d', hresume⟩ := resume_runs hj hwaiting hfulfilled
    exact ⟨[], s, s'', d', .nil s, hresume⟩
  | some i =>
    obtain ⟨hlt, p, hp, hkey, -⟩ := h.chain.before hj hpred
    obtain ⟨tr, s', hrun, hsettled, hothers⟩ := h.settles hp (hearlier i p hlt hp hkey)
    have hj' := hothers j d (by omega) hj
    obtain ⟨s'', d', hresume⟩ := resume_runs hj' hwaiting (hpred ▸ hsettled)
    exact ⟨tr, s', s'', d', hrun, hresume⟩

/-- Then some step other than a new call is possible. -/
theorem Sound.own_step_of_waiting (h : Sound s) (hj : s.calls[j]? = some d)
    (hwaiting : d.phase = .waiting) (hearlier : EarlierDone s j d.key) :
    ∃ e s', e.isOwn = true ∧ KeyedLock.step s e = some (s', ()) := by
  obtain ⟨tr, s', s'', d', hrun, hresume, -⟩ := h.can_start hj hwaiting hearlier
  cases hrun with
  | nil => exact ⟨_, s'', rfl, hresume⟩
  | @cons _ s₁ _ e _ _ hreaction hstep _ =>
    refine ⟨e, s₁, ?_, hstep⟩
    cases e with
    | ask lockKey inner => cases hreaction
    | react | settle | resume | finish => rfl

end

/-! ## Nesting -/

/-- While an operation that goes on to a second key runs, it has made its call. -/
def Called (s : State κ) (c : Call κ) : Prop :=
  ∀ child, c.phase = .running child → (c.inner = none ∧ child = none) ∨
    ∃ lockKey j d, c.inner = some lockKey ∧ child = some j ∧ s.calls[j]? = some d ∧
      d.key = lockKey

/-- An operation that goes on to a second key is on an outer key, and the second is none. -/
structure Nested (outer : κ → Prop) (s : State κ) : Prop where
  apart : ∀ {i : Nat} {c : Call κ} {lockKey : κ}, s.calls[i]? = some c →
    c.inner = some lockKey → outer c.key ∧ ¬ outer lockKey
  called : ∀ {i : Nat} {c : Call κ}, s.calls[i]? = some c → Called s c

/-- The condition on the calls from outside. -/
def Apart (outer : κ → Prop) : Event κ → Prop
  | .ask lockKey (some inner) => outer lockKey ∧ ¬ outer inner
  | _ => True

section

variable {s s' : State κ} {i j : Nat} {c c' d : Call κ} {lockKey : κ} {inner : Option κ}
  {e : Event κ} {outer : κ → Prop}

omit [DecidableEq κ] in
theorem nested_initial : Nested outer (State.initial : State κ) := by
  constructor <;> intros <;> simp_all [State.initial]

omit [DecidableEq κ] in
theorem Called.grows (h : Called s c) (hgrows : s.Grows s') (hle : c.Le c')
    (hphase : c'.phase = c.phase) : Called s' c' := by
  intro child hrunning
  rw [hle.inner]
  rcases h child (hphase ▸ hrunning) with hnone | ⟨lockKey, j, d, hinner, hj, hd, hkey⟩
  · exact Or.inl hnone
  · obtain ⟨d', hd', hdle⟩ := hgrows j d hd
    exact Or.inr ⟨lockKey, j, d', hinner, hj, hd', hdle.key.trans hkey⟩

omit [DecidableEq κ] in
/-- A change of one call keeps the nesting if the call keeps its phase or has made its call. -/
theorem Nested.put (h : Nested outer s) (hc : s.calls[i]? = some c) (hle : c.Le c')
    (hcalled : c'.phase = c.phase ∨ Called (s.put i c') c') : Nested outer (s.put i c') := by
  constructor
  · intro j d lockKey hj hinner
    obtain ⟨d₀, hj₀, hd, -⟩ := of_get_put hc hle hj
    rw [hd.key]
    exact h.apart hj₀ (hd.inner ▸ hinner)
  · intro j d hj
    obtain ⟨d₀, hj₀, hd, heq | ⟨-, rfl, rfl⟩⟩ := of_get_put hc hle hj
    · subst heq
      exact (h.called hj₀).grows (grows_put hc hle) hd rfl
    · rcases hcalled with hphase | hcalled
      · exact (h.called hj₀).grows (grows_put hc hle) hd hphase
      · exact hcalled

theorem Nested.ask (h : Nested outer s)
    (hapart : ∀ k, inner = some k → outer lockKey ∧ ¬ outer k) :
    Nested outer (s.ask lockKey inner) := by
  constructor
  · intro j d k hj hinner
    rcases of_get_ask hj with ⟨-, rfl⟩ | ⟨-, hj⟩
    · exact hapart k hinner
    · exact h.apart hj hinner
  · intro j d hj
    rcases of_get_ask hj with ⟨-, rfl⟩ | ⟨-, hj⟩
    · intro child hrunning
      cases hrunning
    · exact (h.called hj).grows grows_ask (.refl d) rfl

/-- It is the same to change a call before another one asks, or after. -/
theorem put_ask (hc : s.calls[i]? = some c) :
    (s.put i c').ask lockKey inner = (s.ask lockKey inner).put i c' := by
  have hlt := lt_of_get hc
  simp only [State.put, State.ask, List.length_set, List.set_append_left _ _ hlt]

theorem Nested.cleanUp (h : Nested outer s) : Nested outer (s.cleanUp i lockKey) := by
  unfold State.cleanUp
  split
  · exact ⟨h.apart, h.called⟩
  · exact h

/-- **Step lemma.** -/
theorem Nested.step (h : Nested outer s) (hapart : Apart outer e) (hs : Steps s e s') :
    Nested outer s' := by
  cases hs with
  | ask lockKey inner =>
    apply h.ask
    intro k hk
    subst hk
    exact hapart
  | @react i c hc hreacted hfulfilled =>
    exact h.put hc react_le (Or.inl rfl)
  | @settle i c hc hreacted hsettled hdone =>
    exact h.put hc settle_le (Or.inl rfl)
  | @resume i c hc hwaiting hfulfilled hinner =>
    apply h.put hc (resume_le hwaiting none)
    apply Or.inr
    intro child hrunning
    cases hrunning
    exact Or.inl ⟨hinner, rfl⟩
  | @resumeInner i c lockKey hc hwaiting hfulfilled hinner =>
    rw [put_ask hc]
    have hask : Nested outer (s.ask lockKey none) := h.ask fun k hk => by cases hk
    apply hask.put (get_ask_of_get hc) (resume_le hwaiting (some s.calls.length))
    apply Or.inr
    intro child hrunning
    cases hrunning
    refine Or.inr ⟨lockKey, s.calls.length,
      { key := lockKey, inner := none, predecessor := s.locks.get? lockKey }, hinner, rfl, ?_, rfl⟩
    have hlt := lt_of_get hc
    rw [get_put (get_ask_of_get hc), if_neg (by omega), get_ask, if_pos rfl]
  | @finish i c child ok hc hrunning hend =>
    apply (h.put hc (finish_le hrunning ok) _).cleanUp
    apply Or.inr
    intro child' hdone
    cases hdone

/-! ## No deadlock -/

/-- An operation on a key that is not outer can end. -/
theorem Nested.can_finish (h : Nested outer s) (hc : s.calls[i]? = some c)
    (hrunning : c.phase.isRunning = true) (houter : ¬ outer c.key) :
    ∃ s', KeyedLock.step s (.finish i true) = some (s', ()) := by
  cases hphase : c.phase with
  | waiting =>
    rw [hphase] at hrunning
    cases hrunning
  | done ok =>
    rw [hphase] at hrunning
    cases hrunning
  | running child =>
    rcases h.called hc child hphase with ⟨-, rfl⟩ | ⟨lockKey, -, -, hinner, -⟩
    · exact ⟨_, (Steps.finish hc hphase rfl).step⟩
    · exact absurd (h.apart hc hinner).1 houter

/-- **No deadlock.** While a call is not done, some step other than a new call is possible. -/
theorem Sound.progress (h : Sound s) (hnested : Nested outer s) (hc : s.calls[i]? = some c)
    (hpending : c.phase.isDone = false) :
    ∃ e s', e.isOwn = true ∧ KeyedLock.step s e = some (s', ()) := by
  obtain ⟨j, d, hj, hkey, hpending, hearlier⟩ := exists_first hc hpending
  cases hphase : d.phase with
  | done ok =>
    rw [hphase] at hpending
    cases hpending
  | waiting => exact h.own_step_of_waiting hj hphase hearlier
  | running child =>
    rcases hnested.called hj child hphase with ⟨-, rfl⟩ | ⟨lockKey, m, p, hinner, rfl, hp, hpkey⟩
    · exact ⟨.finish j true, _, rfl, (Steps.finish hj hphase rfl).step⟩
    · -- the operation has gone on to a key that is not outer
      cases hend : p.phase with
      | done ok =>
        have hcan : s.canEnd (some m) ok = true := by
          simp [State.canEnd, hp, hend]
        exact ⟨_, _, rfl, (Steps.finish hj hphase hcan).step⟩
      | waiting | running =>
        have hnot : p.phase.isDone = false := by
          rw [hend]
          rfl
        obtain ⟨n, q, hq, hqkey, hqpending, hqearlier⟩ := exists_first hp hnot
        have houter : ¬ outer q.key := by
          rw [hqkey, hpkey]
          exact (hnested.apart hj hinner).2
        cases hqphase : q.phase with
        | done ok =>
          rw [hqphase] at hqpending
          cases hqpending
        | waiting => exact h.own_step_of_waiting hq hqphase hqearlier
        | running child' =>
          obtain ⟨s', hstep⟩ := hnested.can_finish hq (by rw [hqphase]; rfl) houter
          exact ⟨_, s', rfl, hstep⟩

end

/-! ## Work -/

/-- The steps that a call still has before it, with those of the call that its operation will
make. -/
def Call.work (c : Call κ) : Nat :=
  (match c.phase with
    | .waiting => if c.inner.isSome then 6 else 2
    | .running _ => 1
    | .done _ => 0) +
  (if c.reacted then 0 else 1) + (if c.settled then 0 else 1)

def State.work (s : State κ) : Nat := (s.calls.map Call.work).sum

omit [DecidableEq κ] in
theorem sum_work_set {calls : List (Call κ)} {i : Nat} {c : Call κ} (hc : calls[i]? = some c)
    (c' : Call κ) :
    ((calls.set i c').map Call.work).sum + c.work = (calls.map Call.work).sum + c'.work := by
  induction calls generalizing i with
  | nil => cases hc
  | cons d rest ih =>
    cases i with
    | zero =>
      cases hc
      simp only [List.set_cons_zero, List.map_cons, List.sum_cons]
      omega
    | succ i =>
      have hrest := ih (i := i) hc
      simp only [List.set_cons_succ, List.map_cons, List.sum_cons]
      omega

section

variable {s s' : State κ} {i : Nat} {c : Call κ} {lockKey : κ} {e : Event κ}

omit [DecidableEq κ] in
theorem work_put (hc : s.calls[i]? = some c) (c' : Call κ) :
    (s.put i c').work + c.work = s.work + c'.work :=
  sum_work_set hc c'

theorem work_ask : (s.ask lockKey none).work = s.work + 4 := by
  simp only [State.work, State.ask, List.map_append, List.sum_append, List.map_cons,
    List.map_nil, List.sum_cons, List.sum_nil, Call.work]
  rfl

theorem work_cleanUp : (s.cleanUp i lockKey).work = s.work := by
  rw [State.work, calls_cleanUp]
  rfl

/-- **Step lemma.** Every step other than a new call takes work away. -/
theorem Steps.work_lt (h : Steps s e s') (hown : e.isOwn = true) : s'.work < s.work := by
  cases h with
  | ask => cases hown
  | @react i c hc hreacted hfulfilled =>
    have hput := work_put hc { c with reacted := true }
    have hless : Call.work { c with reacted := true } + 1 = c.work := by
      simp only [Call.work, hreacted, if_true, Bool.false_eq_true, if_false]
      omega
    omega
  | @settle i c hc hreacted hsettled hdone =>
    have hput := work_put hc { c with settled := true }
    have hless : Call.work { c with settled := true } + 1 = c.work := by
      simp only [Call.work, hsettled, if_true, Bool.false_eq_true, if_false]
    omega
  | @resume i c hc hwaiting hfulfilled hinner =>
    have hput := work_put hc { c with phase := .running none }
    have hless : Call.work { c with phase := .running none } + 1 = c.work := by
      simp only [Call.work, hwaiting, hinner, Option.isSome_none, Bool.false_eq_true, if_false]
      omega
    omega
  | @resumeInner i c lockKey hc hwaiting hfulfilled hinner =>
    have hput := work_put hc { c with phase := .running (some s.calls.length) }
    have hless : Call.work { c with phase := .running (some s.calls.length) } + 5 = c.work := by
      simp only [Call.work, hwaiting, hinner, Option.isSome_some, if_true]
      omega
    rw [work_ask]
    omega
  | @finish i c child ok hc hrunning hend =>
    have hput := work_put hc { c with phase := .done ok }
    have hless : Call.work { c with phase := .done ok } + 1 = c.work := by
      simp only [Call.work, hrunning]
      omega
    rw [work_cleanUp]
    omega

/-- **Run lemma.** A run without new calls has no more steps than there is work. -/
theorem length_le_work {tr : List (Event κ × Unit)}
    (hrun : Transition.Run KeyedLock.step (fun _ e => e.isOwn = true) s tr s') :
    tr.length + s'.work ≤ s.work := by
  induction hrun with
  | nil s => simp
  | cons hown hstep _ ih =>
    have hlt := (step_iff.mp hstep).work_lt hown
    rw [List.length_cons]
    omega

end

end AuthMe.KeyedLock

import AuthMe.Collections.OrderedMap
import AuthMe.Transition.Run

/-!
# A lock for every key

`#locked` of `MemoryFederatedIdentityRepository` (`src/src/repositories/federated-identity-repository.js`),
over any type of keys:

```
const predecessor = this.#locks.get(lockKey) ?? Promise.resolve();
const current = new Promise((resolve) => { release = resolve; });
const queued = predecessor.then(() => current);
this.#locks.set(lockKey, queued);
await predecessor;
try { return await operation(); } finally {
  release();
  if (this.#locks.get(lockKey) === queued) this.#locks.delete(lockKey);
}
```

Calls are numbered in the order in which they ask, and the number of a call also stands for its
promise `queued`. What runs between two awaits is one step. A step that waits for a promise can
happen at any time after the promise is fulfilled, so the order of the microtasks is one of the
orders of the machine.

An operation ends by itself, with a result or an exception, or it is the one of `link`: it asks for
a second key and ends with that call.
-/

namespace AuthMe.KeyedLock

/-! ## Calls -/

inductive Phase
  /-- `await predecessor`. -/
  | waiting
  /-- `await operation()`, with the call that the operation has made, if it makes one. -/
  | running (child : Option Nat)
  /-- After `finally`, with a result or an exception. -/
  | done (ok : Bool)
  deriving DecidableEq

namespace Phase

def isWaiting : Phase → Bool
  | waiting => true
  | _ => false

def isRunning : Phase → Bool
  | running _ => true
  | _ => false

def isDone : Phase → Bool
  | done _ => true
  | _ => false

end Phase

structure Call (κ : Type) where
  key : κ
  /-- The key that the operation asks for. -/
  inner : Option κ
  /-- The call whose `queued` is awaited; `none` is `Promise.resolve()`. -/
  predecessor : Option Nat
  phase : Phase := .waiting
  /-- The callback of `predecessor.then` has returned `current`. -/
  reacted : Bool := false
  /-- `queued` is fulfilled. -/
  settled : Bool := false

variable {κ : Type} [DecidableEq κ]

structure State (κ : Type) where
  calls : List (Call κ)
  locks : OrderedMap κ Nat

def State.initial : State κ := ⟨[], .empty⟩

inductive Event (κ : Type)
  /-- A call of `#locked`, up to its `await`. -/
  | ask (lockKey : κ) (inner : Option κ)
  /-- The callback of `predecessor.then`. -/
  | react (i : Nat)
  /-- `queued` takes over that `current` is fulfilled. -/
  | settle (i : Nat)
  /-- What follows `await predecessor`, up to the next await. -/
  | resume (i : Nat)
  /-- The operation has ended: `finally`. -/
  | finish (i : Nat) (ok : Bool)

namespace State

variable (s : State κ)

def ask (lockKey : κ) (inner : Option κ) : State κ :=
  ⟨s.calls ++ [{ key := lockKey, inner := inner, predecessor := s.locks.get? lockKey }],
    s.locks.set lockKey s.calls.length⟩

/-- The promise is fulfilled. -/
def fulfilled : Option Nat → Bool
  | none => true
  | some i => (s.calls[i]?).any (·.settled)

def put (i : Nat) (c : Call κ) : State κ := { s with calls := s.calls.set i c }

/-- `if (this.#locks.get(lockKey) === queued) this.#locks.delete(lockKey)`. -/
def cleanUp (i : Nat) (lockKey : κ) : State κ :=
  if s.locks.get? lockKey = some i then { s with locks := s.locks.erase lockKey } else s

/-- The operation can end like this: as its own call has, if it has made one. -/
def canEnd (child : Option Nat) (ok : Bool) : Bool :=
  match child with
  | none => true
  | some j => (s.calls[j]?).any (·.phase = .done ok)

end State

def step (s : State κ) : Event κ → Option (State κ × Unit)
  | .ask lockKey inner => some (s.ask lockKey inner, ())
  | .react i =>
    match s.calls[i]? with
    | none => none
    | some c =>
      if c.reacted = false ∧ s.fulfilled c.predecessor then
        some (s.put i { c with reacted := true }, ())
      else none
  | .settle i =>
    match s.calls[i]? with
    | none => none
    | some c =>
      if c.reacted ∧ c.settled = false ∧ c.phase.isDone then
        some (s.put i { c with settled := true }, ())
      else none
  | .resume i =>
    match s.calls[i]? with
    | none => none
    | some c =>
      if c.phase = .waiting ∧ s.fulfilled c.predecessor then
        match c.inner with
        | none => some (s.put i { c with phase := .running none }, ())
        | some lockKey =>
          some ((s.put i { c with phase := .running (some s.calls.length) }).ask lockKey none, ())
      else none
  | .finish i ok =>
    match s.calls[i]? with
    | none => none
    | some c =>
      match c.phase with
      | .running child =>
        if s.canEnd child ok then
          some ((s.put i { c with phase := .done ok }).cleanUp i c.key, ())
        else none
      | _ => none

/-! ## What a step does -/

/-- What a call can become. -/
structure Call.Le (c c' : Call κ) : Prop where
  key : c'.key = c.key
  inner : c'.inner = c.inner
  predecessor : c'.predecessor = c.predecessor
  reacted : c.reacted = true → c'.reacted = true
  settled : c.settled = true → c'.settled = true
  started : c.phase.isWaiting = false → c'.phase.isWaiting = false
  done : c.phase.isDone = true → c'.phase = c.phase

omit [DecidableEq κ] in
theorem Call.Le.refl (c : Call κ) : c.Le c := ⟨rfl, rfl, rfl, id, id, id, fun _ => rfl⟩

/-- Calls are only added, and the others go on. -/
def State.Grows (s s' : State κ) : Prop :=
  ∀ (i : Nat) (c : Call κ), s.calls[i]? = some c → ∃ c', s'.calls[i]? = some c' ∧ c.Le c'

section

variable {s s' : State κ} {i j : Nat} {c c' : Call κ} {lockKey : κ} {inner : Option κ}

omit [DecidableEq κ] in
theorem get_put (h : s.calls[i]? = some c) (j : Nat) :
    (s.put i c').calls[j]? = if i = j then some c' else s.calls[j]? := by
  have hlt : i < s.calls.length := (List.getElem?_eq_some_iff.mp h).1
  rw [State.put, List.getElem?_set]
  simp only [hlt, if_true]

theorem get_ask (j : Nat) : (s.ask lockKey inner).calls[j]? =
    if j = s.calls.length then
      some { key := lockKey, inner := inner, predecessor := s.locks.get? lockKey }
    else s.calls[j]? := by
  rw [State.ask]
  rcases Nat.lt_trichotomy j s.calls.length with h | h | h
  · rw [List.getElem?_append_left h, if_neg (by omega)]
  · rw [h, List.getElem?_concat_length, if_pos rfl]
  · rw [List.getElem?_eq_none (by simp; omega), if_neg (by omega),
      List.getElem?_eq_none (by omega)]

theorem calls_cleanUp : (s.cleanUp i lockKey).calls = s.calls := by
  unfold State.cleanUp
  split <;> rfl

omit [DecidableEq κ] in
theorem lt_of_get (h : s.calls[i]? = some c) : i < s.calls.length :=
  (List.getElem?_eq_some_iff.mp h).1

omit [DecidableEq κ] in
theorem grows_put (h : s.calls[i]? = some c) (hle : c.Le c') : s.Grows (s.put i c') := by
  intro j d hj
  rw [get_put h]
  by_cases hij : i = j
  · subst hij
    rw [h] at hj
    cases hj
    exact ⟨c', if_pos rfl, hle⟩
  · rw [if_neg hij]
    exact ⟨d, hj, .refl d⟩

theorem grows_ask : s.Grows (s.ask lockKey inner) := by
  intro j d hj
  have hlt := lt_of_get hj
  rw [get_ask, if_neg (by omega)]
  exact ⟨d, hj, .refl d⟩

omit [DecidableEq κ] in
theorem State.Grows.fulfilled (h : s.Grows s') {p : Option Nat} (hp : s.fulfilled p = true) :
    s'.fulfilled p = true := by
  cases p with
  | none => rfl
  | some i =>
    simp only [State.fulfilled] at hp ⊢
    cases hi : s.calls[i]? with
    | none =>
      rw [hi] at hp
      cases hp
    | some c =>
      rw [hi] at hp
      obtain ⟨c', hi', hle⟩ := h i c hi
      rw [hi']
      exact hle.settled hp

end

/-- The steps, each with what it needs and what it leaves. -/
inductive Steps (s : State κ) : Event κ → State κ → Prop
  | ask (lockKey : κ) (inner : Option κ) : Steps s (.ask lockKey inner) (s.ask lockKey inner)
  | react {i : Nat} {c : Call κ} (hc : s.calls[i]? = some c) (hreacted : c.reacted = false)
      (hfulfilled : s.fulfilled c.predecessor = true) :
      Steps s (.react i) (s.put i { c with reacted := true })
  | settle {i : Nat} {c : Call κ} (hc : s.calls[i]? = some c) (hreacted : c.reacted = true)
      (hsettled : c.settled = false) (hdone : c.phase.isDone = true) :
      Steps s (.settle i) (s.put i { c with settled := true })
  | resume {i : Nat} {c : Call κ} (hc : s.calls[i]? = some c) (hwaiting : c.phase = .waiting)
      (hfulfilled : s.fulfilled c.predecessor = true) (hinner : c.inner = none) :
      Steps s (.resume i) (s.put i { c with phase := .running none })
  | resumeInner {i : Nat} {c : Call κ} {lockKey : κ} (hc : s.calls[i]? = some c)
      (hwaiting : c.phase = .waiting) (hfulfilled : s.fulfilled c.predecessor = true)
      (hinner : c.inner = some lockKey) :
      Steps s (.resume i)
        ((s.put i { c with phase := .running (some s.calls.length) }).ask lockKey none)
  | finish {i : Nat} {c : Call κ} {child : Option Nat} {ok : Bool} (hc : s.calls[i]? = some c)
      (hrunning : c.phase = .running child) (hend : s.canEnd child ok = true) :
      Steps s (.finish i ok) ((s.put i { c with phase := .done ok }).cleanUp i c.key)

theorem step_iff {s s' : State κ} {e : Event κ} {o : Unit} :
    step s e = some (s', o) ↔ Steps s e s' := by
  constructor
  · intro h
    cases e with
    | ask lockKey inner =>
      cases h
      exact .ask lockKey inner
    | react i =>
      simp only [step] at h
      split at h
      · cases h
      · rename_i c hc
        split at h
        · rename_i hguard
          cases h
          exact .react hc hguard.1 hguard.2
        · cases h
    | settle i =>
      simp only [step] at h
      split at h
      · cases h
      · rename_i c hc
        split at h
        · rename_i hguard
          cases h
          exact .settle hc hguard.1 hguard.2.1 hguard.2.2
        · cases h
    | resume i =>
      simp only [step] at h
      split at h
      · cases h
      · rename_i c hc
        split at h
        · rename_i hguard
          split at h
          · rename_i hinner
            cases h
            exact .resume hc hguard.1 hguard.2 hinner
          · rename_i lockKey hinner
            cases h
            exact .resumeInner hc hguard.1 hguard.2 hinner
        · cases h
    | finish i ok =>
      simp only [step] at h
      split at h
      · cases h
      · rename_i c hc
        split at h
        · rename_i child hrunning
          split at h
          · rename_i hend
            cases h
            exact .finish hc hrunning hend
          · cases h
        · cases h
  · intro h
    cases h with
    | ask => rfl
    | react hc hreacted hfulfilled => simp [step, hc, hreacted, hfulfilled]
    | settle hc hreacted hsettled hdone => simp [step, hc, hreacted, hsettled, hdone]
    | resume hc hwaiting hfulfilled hinner => simp [step, hc, hwaiting, hfulfilled, hinner]
    | resumeInner hc hwaiting hfulfilled hinner => simp [step, hc, hwaiting, hfulfilled, hinner]
    | finish hc hrunning hend => simp [step, hc, hrunning, hend]

theorem Steps.step {s s' : State κ} {e : Event κ} (h : Steps s e s') :
    KeyedLock.step s e = some (s', ()) := step_iff.mpr h

/-! ## The chain of the promises of one key -/

/-- The calls before `j` on the key are done. -/
def EarlierDone (s : State κ) (j : Nat) (lockKey : κ) : Prop :=
  ∀ (i : Nat) (p : Call κ), i < j → s.calls[i]? = some p → p.key = lockKey → p.phase.isDone = true

/-- No call after `i` is on the key. -/
def Last (s : State κ) (i : Nat) (lockKey : κ) : Prop :=
  ∀ (j : Nat) (q : Call κ), i < j → s.calls[j]? = some q → q.key ≠ lockKey

/-- A call awaits the promise of the call before it on its key, or there is none that is not done.
The promises are fulfilled one after the other. -/
structure Chain (s : State κ) : Prop where
  before : ∀ {j i : Nat} {c : Call κ}, s.calls[j]? = some c → c.predecessor = some i →
    i < j ∧ ∃ p, s.calls[i]? = some p ∧ p.key = c.key ∧
      ∀ (m : Nat) (q : Call κ), i < m → m < j → s.calls[m]? = some q → q.key ≠ c.key
  first : ∀ {j : Nat} {c : Call κ}, s.calls[j]? = some c → c.predecessor = none →
    EarlierDone s j c.key
  reacted : ∀ {j : Nat} {c : Call κ}, s.calls[j]? = some c → c.reacted = true →
    s.fulfilled c.predecessor = true
  settled : ∀ {j : Nat} {c : Call κ}, s.calls[j]? = some c → c.settled = true →
    c.reacted = true ∧ c.phase.isDone = true
  started : ∀ {j : Nat} {c : Call κ}, s.calls[j]? = some c → c.phase.isWaiting = false →
    s.fulfilled c.predecessor = true

section

variable {s s' : State κ} {i j : Nat} {c c' : Call κ} {lockKey : κ} {inner : Option κ}

omit [DecidableEq κ] in
theorem settled_of_fulfilled (h : s.fulfilled (some i) = true) :
    ∃ p, s.calls[i]? = some p ∧ p.settled = true := by
  simp only [State.fulfilled] at h
  cases hi : s.calls[i]? with
  | none =>
    rw [hi] at h
    cases h
  | some p =>
    rw [hi] at h
    exact ⟨p, rfl, h⟩

omit [DecidableEq κ] in
/-- Where the awaited promise is fulfilled, the calls before on the key are done. -/
theorem Chain.earlier_done (h : Chain s) (hc : s.calls[j]? = some c)
    (hfulfilled : s.fulfilled c.predecessor = true) : EarlierDone s j c.key := by
  induction j using Nat.strongRecOn generalizing c with
  | ind j ih =>
    cases hpred : c.predecessor with
    | none => exact h.first hc hpred
    | some i =>
      obtain ⟨hlt, p, hp, hkey, hbetween⟩ := h.before hc hpred
      rw [hpred] at hfulfilled
      obtain ⟨p', hp', hsettled⟩ := settled_of_fulfilled hfulfilled
      have heq : p' = p := Option.some.inj (hp'.symm.trans hp)
      subst heq
      obtain ⟨hreacted, hdone⟩ := h.settled hp hsettled
      have hearlier := ih i hlt hp (h.reacted hp hreacted)
      intro m q hm hq hqkey
      rcases Nat.lt_trichotomy m i with hmi | hmi | hmi
      · exact hearlier m q hmi hq (hqkey.trans hkey.symm)
      · subst hmi
        have heq' : q = p' := Option.some.inj (hq.symm.trans hp)
        rw [heq']
        exact hdone
      · exact absurd hqkey (hbetween m q hmi hm hq)

omit [DecidableEq κ] in
theorem Chain.started_earlier_done (h : Chain s) (hc : s.calls[j]? = some c)
    (hstarted : c.phase.isWaiting = false) : EarlierDone s j c.key :=
  h.earlier_done hc (h.started hc hstarted)

omit [DecidableEq κ] in
/-- The calls after a `put` are those from before, but for one. -/
theorem of_get_put (hi : s.calls[i]? = some c) (hle : c.Le c') {d : Call κ}
    (hj : (s.put i c').calls[j]? = some d) :
    ∃ d₀, s.calls[j]? = some d₀ ∧ d₀.Le d ∧ (d = d₀ ∨ i = j ∧ d₀ = c ∧ d = c') := by
  rw [get_put hi] at hj
  by_cases hij : i = j
  · rw [if_pos hij] at hj
    cases hj
    subst hij
    exact ⟨c, hi, hle, Or.inr ⟨rfl, rfl, rfl⟩⟩
  · rw [if_neg hij] at hj
    exact ⟨d, hj, .refl d, Or.inl rfl⟩

omit [DecidableEq κ] in
theorem Call.Le.isDone (h : c.Le c') (hdone : c.phase.isDone = true) : c'.phase.isDone = true := by
  rw [h.done hdone]
  exact hdone

omit [DecidableEq κ] in
theorem Chain.put (h : Chain s) (hc : s.calls[i]? = some c) (hle : c.Le c')
    (hreacted : c'.reacted = true → s.fulfilled c.predecessor = true)
    (hsettled : c'.settled = true → c'.reacted = true ∧ c'.phase.isDone = true)
    (hstarted : c'.phase.isWaiting = false → s.fulfilled c.predecessor = true) :
    Chain (s.put i c') := by
  have grows := grows_put hc hle
  constructor
  · intro j i' d hj hpred
    obtain ⟨d₀, hj₀, hd, -⟩ := of_get_put hc hle hj
    obtain ⟨hlt, p, hp, hkey, hbetween⟩ := h.before hj₀ (hd.predecessor ▸ hpred)
    obtain ⟨p', hp', hple⟩ := grows i' p hp
    refine ⟨hlt, p', hp', by rw [hple.key, hkey, hd.key], ?_⟩
    intro m q hm hmj hq
    obtain ⟨q₀, hq₀, hqle, -⟩ := of_get_put hc hle hq
    rw [hqle.key, hd.key]
    exact hbetween m q₀ hm hmj hq₀
  · intro j d hj hpred
    obtain ⟨d₀, hj₀, hd, -⟩ := of_get_put hc hle hj
    intro m q hm hq hqkey
    obtain ⟨q₀, hq₀, hqle, -⟩ := of_get_put hc hle hq
    apply hqle.isDone
    apply h.first hj₀ (hd.predecessor ▸ hpred) m q₀ hm hq₀
    rw [← hqle.key, hqkey, hd.key]
  · intro j d hj hd'
    obtain ⟨d₀, hj₀, hd, heq | ⟨-, rfl, rfl⟩⟩ := of_get_put hc hle hj
    · subst heq
      exact grows.fulfilled (h.reacted hj₀ hd')
    · rw [hd.predecessor]
      exact grows.fulfilled (hreacted hd')
  · intro j d hj hd'
    obtain ⟨d₀, hj₀, hd, heq | ⟨-, rfl, rfl⟩⟩ := of_get_put hc hle hj
    · subst heq
      exact h.settled hj₀ hd'
    · exact hsettled hd'
  · intro j d hj hd'
    obtain ⟨d₀, hj₀, hd, heq | ⟨-, rfl, rfl⟩⟩ := of_get_put hc hle hj
    · subst heq
      exact grows.fulfilled (h.started hj₀ hd')
    · rw [hd.predecessor]
      exact grows.fulfilled (hstarted hd')

/-- The calls after an `ask` are those from before and the new one. -/
theorem of_get_ask {d : Call κ} (hj : (s.ask lockKey inner).calls[j]? = some d) :
    (j = s.calls.length ∧
        d = { key := lockKey, inner := inner, predecessor := s.locks.get? lockKey }) ∨
      (j < s.calls.length ∧ s.calls[j]? = some d) := by
  rw [get_ask] at hj
  by_cases hlen : j = s.calls.length
  · rw [if_pos hlen] at hj
    exact Or.inl ⟨hlen, (Option.some.inj hj).symm⟩
  · rw [if_neg hlen] at hj
    exact Or.inr ⟨lt_of_get hj, hj⟩

theorem get_ask_of_get {d : Call κ} (hj : s.calls[j]? = some d) :
    (s.ask lockKey inner).calls[j]? = some d := by
  have hlt := lt_of_get hj
  rw [get_ask, if_neg (by omega)]
  exact hj

theorem Chain.ask (h : Chain s)
    (hlast : ∀ i, s.locks.get? lockKey = some i →
      ∃ p, s.calls[i]? = some p ∧ p.key = lockKey ∧ Last s i lockKey)
    (hnone : s.locks.get? lockKey = none → EarlierDone s s.calls.length lockKey) :
    Chain (s.ask lockKey inner) := by
  have grows : s.Grows (s.ask lockKey inner) := grows_ask
  have get_old : ∀ {m : Nat} {q : Call κ}, m < s.calls.length →
      (s.ask lockKey inner).calls[m]? = some q → s.calls[m]? = some q := by
    intro m q hm hq
    rcases of_get_ask hq with ⟨hlen, -⟩ | ⟨-, hq⟩
    · omega
    · exact hq
  constructor
  · intro j i' d hj hpred
    rcases of_get_ask hj with ⟨rfl, rfl⟩ | ⟨hlt, hj⟩
    · obtain ⟨p, hp, hkey, hl⟩ := hlast i' hpred
      obtain ⟨p', hp', hple⟩ := grows i' p hp
      refine ⟨lt_of_get hp, p', hp', hple.key.trans hkey, ?_⟩
      intro m q hm hmj hq
      exact hl m q hm (get_old hmj hq)
    · obtain ⟨hij, p, hp, hkey, hbetween⟩ := h.before hj hpred
      obtain ⟨p', hp', hple⟩ := grows i' p hp
      refine ⟨hij, p', hp', hple.key.trans hkey, ?_⟩
      intro m q hm hmj hq
      exact hbetween m q hm hmj (get_old (by omega) hq)
  · intro j d hj hpred
    rcases of_get_ask hj with ⟨rfl, rfl⟩ | ⟨hlt, hj⟩
    · intro m q hm hq hqkey
      exact hnone hpred m q hm (get_old hm hq) hqkey
    · intro m q hm hq hqkey
      exact h.first hj hpred m q hm (get_old (by omega) hq) hqkey
  · intro j d hj hd
    rcases of_get_ask hj with ⟨rfl, rfl⟩ | ⟨hlt, hj⟩
    · cases hd
    · exact grows.fulfilled (h.reacted hj hd)
  · intro j d hj hd
    rcases of_get_ask hj with ⟨rfl, rfl⟩ | ⟨hlt, hj⟩
    · cases hd
    · exact h.settled hj hd
  · intro j d hj hd
    rcases of_get_ask hj with ⟨rfl, rfl⟩ | ⟨hlt, hj⟩
    · cases hd
    · exact grows.fulfilled (h.started hj hd)

end

/-! ## The table -/

/-- An entry is the last call on its key, and there is one as long as that call is not done. -/
def Entries (s : State κ) : Prop :=
  ∀ (lockKey : κ) (i : Nat), s.locks.get? lockKey = some i ↔
    ∃ c, s.calls[i]? = some c ∧ c.key = lockKey ∧ c.phase.isDone = false ∧ Last s i lockKey

section

variable {s s' : State κ} {i j : Nat} {c c' : Call κ} {lockKey : κ} {inner : Option κ}

omit [DecidableEq κ] in
theorem exists_last (hi : s.calls[i]? = some c) (hkey : c.key = lockKey) :
    ∃ m p, i ≤ m ∧ s.calls[m]? = some p ∧ p.key = lockKey ∧ Last s m lockKey := by
  induction hn : s.calls.length - i using Nat.strongRecOn generalizing i c with
  | ind n ih =>
    by_cases hlast : Last s i lockKey
    · exact ⟨i, c, Nat.le_refl i, hi, hkey, hlast⟩
    · unfold Last at hlast
      push Not at hlast
      obtain ⟨j, q, hij, hq, hqkey⟩ := hlast
      have hlt := lt_of_get hq
      obtain ⟨m, p, hm, hrest⟩ := ih (s.calls.length - j) (by omega) hq hqkey rfl
      exact ⟨m, p, by omega, hrest⟩

/-- Without an entry all calls on the key are done. -/
theorem Entries.done_of_none (h : Entries s) (hchain : Chain s)
    (hnone : s.locks.get? lockKey = none) : EarlierDone s s.calls.length lockKey := by
  intro i c hi hc hkey
  obtain ⟨m, p, him, hp, hpkey, hlast⟩ := exists_last hc hkey
  have hdone : p.phase.isDone = true := by
    by_contra hnot
    have hentry := (h lockKey m).mpr ⟨p, hp, hpkey, Bool.eq_false_iff.mpr hnot, hlast⟩
    rw [hnone] at hentry
    cases hentry
  rcases Nat.lt_or_ge i m with hlt | hge
  · have hstarted : p.phase.isWaiting = false := by
      cases hphase : p.phase with
      | done ok => rfl
      | waiting =>
        rw [hphase] at hdone
        cases hdone
      | running child =>
        rw [hphase] at hdone
        cases hdone
    exact hchain.started_earlier_done hp hstarted i c hlt hc (hkey.trans hpkey.symm)
  · have heq : i = m := by omega
    subst heq
    rw [Option.some.inj (hc.symm.trans hp)]
    exact hdone

theorem Entries.last_of_some (h : Entries s) (hentry : s.locks.get? lockKey = some i) :
    ∃ p, s.calls[i]? = some p ∧ p.key = lockKey ∧ Last s i lockKey := by
  obtain ⟨c, hc, hkey, -, hlast⟩ := (h lockKey i).mp hentry
  exact ⟨c, hc, hkey, hlast⟩

omit [DecidableEq κ] in
theorem last_put_iff (hc : s.calls[i]? = some c) (hle : c.Le c') :
    Last (s.put i c') j lockKey ↔ Last s j lockKey := by
  constructor
  · intro h m q hm hq
    obtain ⟨q', hq', hqle⟩ := grows_put hc hle m q hq
    rw [← hqle.key]
    exact h m q' hm hq'
  · intro h m q hm hq
    obtain ⟨q₀, hq₀, hqle, -⟩ := of_get_put hc hle hq
    rw [hqle.key]
    exact h m q₀ hm hq₀

omit [DecidableEq κ] in
/-- The call that is last on a key, and not done, by the calls from before a `put`. -/
theorem pending_last_put_iff (lockKey : κ) (hc : s.calls[i]? = some c) (hle : c.Le c')
    (hphase : j = i → c'.phase.isDone = c.phase.isDone) :
    (∃ d, (s.put i c').calls[j]? = some d ∧ d.key = lockKey ∧ d.phase.isDone = false ∧
        Last (s.put i c') j lockKey) ↔
      ∃ d, s.calls[j]? = some d ∧ d.key = lockKey ∧ d.phase.isDone = false ∧
        Last s j lockKey := by
  rw [last_put_iff hc hle]
  constructor
  · intro ⟨d, hd, hkey, hdone, hlast⟩
    obtain ⟨d₀, hd₀, hdle, heq | ⟨rfl, rfl, rfl⟩⟩ := of_get_put hc hle hd
    · subst heq
      exact ⟨d, hd₀, hkey, hdone, hlast⟩
    · exact ⟨d₀, hd₀, hdle.key ▸ hkey, (hphase rfl) ▸ hdone, hlast⟩
  · intro ⟨d, hd, hkey, hdone, hlast⟩
    obtain ⟨d', hd', hdle⟩ := grows_put hc hle j d hd
    obtain ⟨d₀, hd₀, -, heq | ⟨rfl, rfl, rfl⟩⟩ := of_get_put hc hle hd'
    · subst heq
      have heq' := Option.some.inj (hd.symm.trans hd₀)
      subst heq'
      exact ⟨d, hd', hkey, hdone, hlast⟩
    · have heq' := Option.some.inj (hd.symm.trans hd₀)
      subst heq'
      exact ⟨d', hd', hdle.key.trans hkey, (hphase rfl).trans hdone, hlast⟩

theorem Entries.put (h : Entries s) (hc : s.calls[i]? = some c) (hle : c.Le c')
    (hphase : c'.phase.isDone = c.phase.isDone) : Entries (s.put i c') := by
  intro lockKey j
  rw [pending_last_put_iff lockKey hc hle fun _ => hphase]
  exact h lockKey j

theorem Entries.ask (h : Entries s) : Entries (s.ask lockKey inner) := by
  intro k i
  show (s.locks.set lockKey s.calls.length).get? k = some i ↔ _
  rw [OrderedMap.get?_set]
  by_cases hk : k = lockKey
  · subst hk
    rw [if_pos rfl]
    constructor
    · intro heq
      have hlen := Option.some.inj heq
      subst hlen
      refine ⟨_, (get_ask _).trans (if_pos rfl), rfl, rfl, ?_⟩
      intro j q hj hq
      rcases of_get_ask hq with ⟨hlen, -⟩ | ⟨hlt, -⟩
      · omega
      · omega
    · intro ⟨c, hc, hkey, hdone, hlast⟩
      rcases of_get_ask hc with ⟨rfl, -⟩ | ⟨hlt, -⟩
      · rfl
      · exact absurd rfl (hlast s.calls.length _ hlt ((get_ask _).trans (if_pos rfl)))
  · rw [if_neg hk, h k i]
    constructor
    · intro ⟨c, hc, hkey, hdone, hlast⟩
      refine ⟨c, get_ask_of_get hc, hkey, hdone, ?_⟩
      intro j q hj hq
      rcases of_get_ask hq with ⟨-, rfl⟩ | ⟨-, hq⟩
      · exact fun heq => hk heq.symm
      · exact hlast j q hj hq
    · intro ⟨c, hc, hkey, hdone, hlast⟩
      rcases of_get_ask hc with ⟨-, rfl⟩ | ⟨-, hc⟩
      · exact absurd hkey.symm hk
      · exact ⟨c, hc, hkey, hdone, fun j q hj hq => hlast j q hj (get_ask_of_get hq)⟩

theorem get_locks_cleanUp (h : Entries s) (hc : s.calls[i]? = some c) (k : κ) :
    ((s.put i c').cleanUp i c.key).locks.get? k = some j ↔
      s.locks.get? k = some j ∧ j ≠ i := by
  have own : s.locks.get? k = some i → k = c.key := by
    intro hentry
    obtain ⟨p, hp, hkey, -⟩ := h.last_of_some hentry
    rw [← hkey, Option.some.inj (hp.symm.trans hc)]
  unfold State.cleanUp
  by_cases hentry : s.locks.get? c.key = some i
  · rw [if_pos (show (s.put i c').locks.get? c.key = some i from hentry)]
    show (s.locks.erase c.key).get? k = some j ↔ _
    rw [OrderedMap.get?_erase]
    by_cases hk : k = c.key
    · subst hk
      rw [if_pos rfl, hentry]
      simp only [reduceCtorEq, Option.some.injEq, false_iff, not_and, not_not]
      exact fun heq => heq.symm
    · rw [if_neg hk]
      refine ⟨fun hj => ⟨hj, ?_⟩, And.left⟩
      rintro rfl
      exact hk (own hj)
  · rw [if_neg (show ¬ (s.put i c').locks.get? c.key = some i from hentry)]
    refine ⟨fun hj => ⟨hj, ?_⟩, And.left⟩
    rintro rfl
    exact hentry (own hj ▸ hj)

/-- `finally` takes the entry out of the table if it still is the own one. -/
theorem Entries.finish (h : Entries s) (hc : s.calls[i]? = some c) (hle : c.Le c')
    (hdone : c'.phase.isDone = true) : Entries ((s.put i c').cleanUp i c.key) := by
  intro k j
  rw [get_locks_cleanUp h hc, h k j]
  unfold Last
  rw [calls_cleanUp]
  by_cases hij : j = i
  · subst hij
    simp only [ne_eq, not_true_eq_false, and_false, false_iff]
    rintro ⟨d, hd, -, hnot, -⟩
    rw [get_put hc, if_pos rfl] at hd
    rw [← Option.some.inj hd, hdone] at hnot
    cases hnot
  · have hput := pending_last_put_iff (j := j) k hc hle fun heq => absurd heq hij
    unfold Last at hput
    rw [hput]
    exact and_iff_left hij

end

/-! ## Exclusion and order -/

structure Sound (s : State κ) : Prop where
  chain : Chain s
  entries : Entries s

theorem sound_initial : Sound (State.initial : State κ) where
  chain := by constructor <;> intros <;> simp_all [State.initial]
  entries := by
    intro lockKey i
    simp [State.initial, OrderedMap.empty, OrderedMap.get?, OrderedMap.lookup]

section

variable {s s' : State κ} {i j : Nat} {c c' d : Call κ} {lockKey : κ} {inner : Option κ}
  {e : Event κ}

theorem Sound.ask (h : Sound s) : Sound (s.ask lockKey inner) :=
  ⟨h.chain.ask (fun _ => h.entries.last_of_some) (h.entries.done_of_none h.chain), h.entries.ask⟩

theorem Chain.cleanUp (h : Chain s) : Chain (s.cleanUp i lockKey) := by
  unfold State.cleanUp
  split
  · exact ⟨h.before, h.first, h.reacted, h.settled, h.started⟩
  · exact h

omit [DecidableEq κ] in
theorem resume_le (hwaiting : c.phase = .waiting) (child : Option Nat) :
    c.Le { c with phase := .running child } :=
  ⟨rfl, rfl, rfl, id, id, fun _ => rfl, fun hdone => by
    rw [hwaiting] at hdone
    cases hdone⟩

omit [DecidableEq κ] in
theorem react_le : c.Le { c with reacted := true } :=
  ⟨rfl, rfl, rfl, fun _ => rfl, id, id, fun _ => rfl⟩

omit [DecidableEq κ] in
theorem settle_le : c.Le { c with settled := true } :=
  ⟨rfl, rfl, rfl, id, fun _ => rfl, id, fun _ => rfl⟩

omit [DecidableEq κ] in
theorem finish_le {child : Option Nat} (hrunning : c.phase = .running child) (ok : Bool) :
    c.Le { c with phase := .done ok } :=
  ⟨rfl, rfl, rfl, id, id, fun _ => rfl, fun hdone => by
    rw [hrunning] at hdone
    cases hdone⟩

theorem Sound.resume (h : Sound s) (hc : s.calls[i]? = some c) (hwaiting : c.phase = .waiting)
    (hfulfilled : s.fulfilled c.predecessor = true) (child : Option Nat) :
    Sound (s.put i { c with phase := .running child }) := by
  have hle := resume_le hwaiting child
  constructor
  · apply h.chain.put hc hle (fun hflag => h.chain.reacted hc hflag) _ fun _ => hfulfilled
    intro hsettled
    have hdone := (h.chain.settled hc hsettled).2
    rw [hwaiting] at hdone
    cases hdone
  · apply h.entries.put hc hle
    rw [hwaiting]
    rfl

/-- **Step lemma.** -/
theorem Sound.step (h : Sound s) (hs : Steps s e s') : Sound s' := by
  cases hs with
  | ask lockKey inner => exact h.ask
  | @react i c hc hreacted hfulfilled =>
    refine ⟨h.chain.put hc react_le (fun _ => hfulfilled) ?_ fun hflag => h.chain.started hc hflag,
      h.entries.put hc react_le rfl⟩
    exact fun hsettled => ⟨rfl, (h.chain.settled hc hsettled).2⟩
  | @settle i c hc hreacted hsettled hdone =>
    exact ⟨h.chain.put hc settle_le (fun hflag => h.chain.reacted hc hflag)
      (fun _ => ⟨hreacted, hdone⟩) fun hflag => h.chain.started hc hflag,
      h.entries.put hc settle_le rfl⟩
  | resume hc hwaiting hfulfilled hinner => exact h.resume hc hwaiting hfulfilled none
  | resumeInner hc hwaiting hfulfilled hinner =>
    exact (h.resume hc hwaiting hfulfilled (some s.calls.length)).ask
  | @finish i c child ok hc hrunning hend =>
    have hle := finish_le hrunning ok
    refine ⟨(h.chain.put hc hle (fun hflag => h.chain.reacted hc hflag) ?_ fun _ => ?_).cleanUp,
      h.entries.finish hc hle rfl⟩
    · exact fun hsettled => ⟨(h.chain.settled hc hsettled).1, rfl⟩
    · apply h.chain.started hc
      rw [hrunning]
      rfl

/-- **Run lemma.** -/
theorem Sound.run {G : State κ → Event κ → Prop} {tr : List (Event κ × Unit)} (h : Sound s)
    (hrun : Transition.Run KeyedLock.step G s tr s') : Sound s' :=
  hrun.invariant (fun _ _ _ _ hsound _ hstep => hsound.step (step_iff.mp hstep)) h

/-- One operation on a key runs at a time. -/
theorem Sound.exclusive (h : Sound s) (hi : s.calls[i]? = some c) (hj : s.calls[j]? = some d)
    (hkey : c.key = d.key) (hc : c.phase.isRunning = true) (hd : d.phase.isRunning = true) :
    i = j := by
  have running_not : ∀ {p : Phase}, p.isRunning = true → p.isWaiting = false ∧ p.isDone = false := by
    intro p hp
    cases p with
    | running child => exact ⟨rfl, rfl⟩
    | waiting => cases hp
    | done ok => cases hp
  rcases Nat.lt_trichotomy i j with hlt | heq | hgt
  · have hdone := h.chain.started_earlier_done hj (running_not hd).1 i c hlt hi hkey
    rw [(running_not hc).2] at hdone
    cases hdone
  · exact heq
  · have hdone := h.chain.started_earlier_done hi (running_not hc).1 j d hgt hj hkey.symm
    rw [(running_not hd).2] at hdone
    cases hdone

/-- Without a call that is not done the table is empty. -/
theorem Sound.table_empty (h : Sound s)
    (hdone : ∀ (i : Nat) (c : Call κ), s.calls[i]? = some c → c.phase.isDone = true) :
    s.locks.entries = [] := by
  apply List.eq_nil_iff_forall_not_mem.mpr
  intro ⟨lockKey, i⟩ hmem
  obtain ⟨c, hc, -, hnot, -⟩ := (h.entries lockKey i).mp (OrderedMap.mem_entries_iff.mp hmem)
  rw [hdone i c hc] at hnot
  cases hnot

end

end AuthMe.KeyedLock

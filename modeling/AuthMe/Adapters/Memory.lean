import AuthMe.Adapters.Record
import AuthMe.Collections.OrderedMap
import AuthMe.Transition.Run

/-!
# The in-memory adapter, from await to await

`src/src/adapters/memory.js` runs in one thread: between two `await`s nothing else
happens. A step of the machine is the stretch of one call up to its next `await` or its
end. A call that has reached an `await` is suspended (`Call`) and holds what the
JavaScript frame holds, with the version that `securityVersionFor` has read for it.

* Records are objects: `heap` holds them by reference, and the buckets (`store`) map keys
  to references. Saving makes a new object, consuming changes the object in place, and
  `liveParent !== parent` compares references.
* `mutateAccountSecurity` and `deleteAccount` of the in-memory data layer are calls too.
  What the callback does to the user, and what the rest of the program does, is `setUser`.
* `tick` counts the steps. It names the calls and the objects, so a call is older than
  another one if its number is smaller.
-/

namespace AuthMe.Adapters.Memory

/-- A record object. The last two are no properties of it: the key that it was saved
under, and the number of the `upsert` call that made it. -/
structure Record where
  payload : Payload
  securityVersion : Option Nat
  expiresAt : Option Int
  key : Key
  called : Nat
  deriving DecidableEq

/-- `current(record) === record`. -/
def Record.live (r : Record) (now : Instant) : Bool :=
  match r.expiresAt with
  | none => true
  | some t => now.ms < t

/-- Where a mutation is suspended: before it changes the user, before it revokes, or
before it returns. -/
inductive Stage
  | begun
  | changed
  | revoked
  deriving DecidableEq

/-- A suspended call. `version` is what `securityVersionFor` has read. -/
inductive Call
  | upsertParent (key : Key) (next : Payload) (expiresIn : Option Int) (parent : Nat)
      (version : Option Nat)
  | upsertOwn (key : Key) (next : Payload) (expiresIn : Option Int) (parent : Option Nat)
      (version : Option Nat)
  | find (key : Key) (ref : Nat) (version : Option Nat)
  | mutation (kind : Kind) (realm accountId : String) (stage : Stage)
  deriving DecidableEq

structure State where
  users : String → String → Slot
  heap : Nat → Option Record
  store : OrderedMap Key Nat
  calls : Nat → Option Call
  tick : Nat

/-- A new call, the continuation of a suspended one, a call without `await`, or a change
of a user by another part of the program. -/
inductive Action
  | upsert (key : Key) (payload : Payload) (expiresIn : Option Int)
  | find (realm model : String) (column : Column)
  | mutation (kind : Kind) (realm accountId : String)
  | resume (call : Nat)
  | consume (key : Key)
  | claimInitialAccessToken (realm id : String)
  | destroy (key : Key)
  | revokeByGrantId (realm model grantId : String)
  | setUser (realm accountId : String) (row : Account)
  deriving DecidableEq

/-- How a step ends. -/
inductive Outcome
  | suspended
  | saved (key : Key)
  | found (key : Key) (ref : Nat) (payload : Payload)
  | absent
  | mutated
  | failed (error : AdapterError)
  | claimed (success : Bool)
  | done
  deriving DecidableEq

namespace State

/-- `bucket(realm, model).get(id)`. -/
def record? (s : State) (key : Key) : Option (Nat × Record) :=
  (s.store.get? key).bind fun ref => (s.heap ref).map fun r => (ref, r)

/-- `current(bucket(realm, model).get(id))`. -/
def live? (s : State) (now : Instant) (key : Key) : Option (Nat × Record) :=
  (s.record? key).filter fun x => x.2.live now

def securityVersionFor (s : State) (realm accountId : String) : Option Nat :=
  enabledVersion (s.users realm accountId)

/-- The next step begins. -/
def tock (s : State) : State := { s with tick := s.tick + 1 }

def suspend (s : State) (call : Nat) (c : Call) : State :=
  { s with calls := Function.update s.calls call (some c) }

def finish (s : State) (call : Nat) : State :=
  { s with calls := Function.update s.calls call none }

def withUser (s : State) (realm accountId : String) (slot : Slot) : State :=
  { s with users := fun r a => if r = realm ∧ a = accountId then slot else s.users r a }

/-- `this.records.set(id, { … })`. -/
def save (s : State) (key : Key) (r : Record) : State :=
  { s with heap := Function.update s.heap s.tick (some r), store := s.store.set key s.tick }

end State

/-! ## `upsert` -/

def unavailableParent : AdapterError := .invalidGrant "parent grant is unavailable or stale"

/-- Lines 50 to 63, after the version of the own account is known. -/
def upsertWrite (s : State) (now : Instant) (call : Nat) (key : Key) (next : Payload)
    (expiresIn : Option Int) (parent : Option Nat) (version : Option Nat) : State × Outcome :=
  if next.accountId.isSome ∧ version = none then
    (s.finish call, .failed (.invalidGrant
      "account-bound artifact references an unavailable account"))
  else
    let liveParent := next.grantId.bind fun g => s.live? now ⟨key.realm, "Grant", g⟩
    if next.grantId.isSome ∧ (liveParent.map Prod.fst ≠ parent ∨
        liveParent.bind (·.2.securityVersion) ≠ version) then
      (s.finish call, .failed (.invalidGrant
        "parent grant changed while the artifact was being saved"))
    else
      ((s.finish call).save key ⟨next, version, expiresIn.map (now.ms + ·), key, call⟩,
        .saved key)

/-- Line 49: the version of the own account is read, with an `await`. -/
def upsertOwn (s : State) (now : Instant) (call : Nat) (key : Key) (next : Payload)
    (expiresIn : Option Int) (parent : Option Nat) : State × Outcome :=
  match next.accountId with
  | none => upsertWrite s now call key next expiresIn parent none
  | some a =>
    (s.suspend call (.upsertOwn key next expiresIn parent (s.securityVersionFor key.realm a)),
      .suspended)

/-- Lines 41 to 47, after the version of the parent's account is known. -/
def upsertResume (s : State) (now : Instant) (call : Nat) (key : Key) (next : Payload)
    (expiresIn : Option Int) (parent : Nat) (version : Option Nat) : State × Outcome :=
  match s.heap parent with
  | none => (s.finish call, .failed unavailableParent)
  | some p =>
    if version = none ∨ p.securityVersion ≠ version then
      (s.finish call, .failed unavailableParent)
    else if next.accountId.isSome ∧ next.accountId ≠ p.payload.accountId then
      (s.finish call, .failed (.invalidGrant "artifact account does not match its parent grant"))
    else
      upsertOwn s now call key { next with accountId := p.payload.accountId } expiresIn
        (some parent)

/-- The payload that is saved keeps the consumption of the record that is there. -/
def mergeConsumed (existing : Option (Nat × Record)) (payload : Payload) : Payload :=
  match existing with
  | none => payload
  | some (_, r) =>
    if r.payload.isConsumed && !payload.isConsumed then
      { payload with consumed := r.payload.consumed }
    else payload

/-- Lines 30 to 40, up to the first `await`. -/
def upsert (s : State) (now : Instant) (key : Key) (payload : Payload)
    (expiresIn : Option Int) : State × Outcome :=
  if key.model = "ReplayDetection" ∧ (s.live? now key).isSome then
    (s.finish s.tick, .failed (.invalidRequest "replayed assertion or proof detected"))
  else
    let next := mergeConsumed (s.record? key) payload
    match next.grantId with
    | none => upsertOwn s now s.tick key next expiresIn none
    | some g =>
      match s.live? now ⟨key.realm, "Grant", g⟩ with
      | none => (s.finish s.tick, .failed unavailableParent)
      | some (ref, p) =>
        match p.payload.accountId with
        | none => (s.finish s.tick, .failed unavailableParent)
        | some a =>
          (s.suspend s.tick
            (.upsertParent key next expiresIn ref (s.securityVersionFor key.realm a)),
            .suspended)

/-! ## Queries, consumption and deletion -/

def holds (c : Column) (key : Key) (r : Record) : Bool :=
  match c with
  | .id v => key.id = v
  | .userCode v => r.payload.userCode = some v
  | .uid v => r.payload.uid = some v

/-- The record that `find`, `findByUserCode` or `findByUid` selects before its `await`:
the first live one of the bucket, in insertion order. -/
def select (s : State) (now : Instant) (realm model : String) (c : Column) :
    Option (Key × Nat × Record) :=
  (s.store.findFirst? fun key ref =>
    key.realm = realm && key.model = model &&
      match s.heap ref with
      | none => false
      | some r => r.live now && holds c key r).bind
    fun x => (s.heap x.2).map fun r => (x.1, x.2, r)

/-- `find`, `findByUserCode` and `findByUid` up to the `await`. -/
def find (s : State) (now : Instant) (realm model : String) (c : Column) : State × Outcome :=
  match select s now realm model c with
  | none => (s.finish s.tick, .absent)
  | some (key, ref, r) =>
    if r.securityVersion = none then (s.finish s.tick, .found key ref r.payload)
    else
      -- `securityVersionFor(undefined)` finds no user
      let version := r.payload.accountId.bind (s.securityVersionFor realm)
      (s.suspend s.tick (.find key ref version), .suspended)

/-- The rest of a query: the object is read again. -/
def findResume (s : State) (call : Nat) (key : Key) (ref : Nat) (version : Option Nat) :
    State × Outcome :=
  match s.heap ref with
  | none => (s.finish call, .absent)
  | some r =>
    if version ≠ r.securityVersion then (s.finish call, .absent)
    else (s.finish call, .found key ref r.payload)

/-- `record.payload.consumed = Math.floor(Date.now() / 1000)`. -/
def Record.consume (r : Record) (now : Instant) : Record :=
  { r with payload := { r.payload with consumed := some now.seconds } }

/-- The record of `key` is marked, if it is live and not yet marked. -/
def markConsumed (s : State) (now : Instant) (key : Key) : Option State :=
  match s.live? now key with
  | none => none
  | some (ref, r) =>
    if r.payload.isConsumed then none
    else some { s with heap := Function.update s.heap ref (some (r.consume now)) }

/-- `MemoryAdapter.consume`. -/
def consume (s : State) (now : Instant) (key : Key) : State × Outcome :=
  match markConsumed s now key with
  | some s' => (s', .done)
  | none => (s.finish s.tick, .failed (alreadyConsumed key.model))

/-- `claimMemoryInitialAccessToken`. -/
def claimInitialAccessToken (s : State) (now : Instant) (realm id : String) : State × Outcome :=
  match markConsumed s now ⟨realm, "InitialAccessToken", id⟩ with
  | some s' => (s', .claimed true)
  | none => (s.finish s.tick, .claimed false)

def destroy (s : State) (key : Key) : State := { s with store := s.store.erase key }

def revokeByGrantId (s : State) (realm model grantId : String) : State :=
  { s with store := s.store.filter fun key ref =>
      !(key.realm = realm && key.model = model &&
        match s.heap ref with
        | none => false
        | some r => r.payload.grantId = some grantId) }

/-- `grantIds.has(grantId)` in `revokeMemoryAccount`. -/
def accountGrant (s : State) (realm accountId grantId : String) : Bool :=
  match s.record? ⟨realm, "Grant", grantId⟩ with
  | none => false
  | some (_, grant) => grant.payload.accountId = some accountId

def doomed (s : State) (realm accountId : String) (key : Key) (ref : Nat) : Bool :=
  key.realm = realm &&
    match s.heap ref with
    | none => false
    | some r =>
      r.payload.accountId = some accountId ||
        match r.payload.grantId with
        | none => false
        | some g => accountGrant s realm accountId g

/-- `revokeMemoryAccount`. It finds the buckets of a realm by the prefix of their name, and a realm name
has no NUL, so these are the buckets of that realm. -/
def revokeAccount (s : State) (realm accountId : String) : State :=
  { s with store := s.store.filter fun key ref => !doomed s realm accountId key ref }

/-! ## Mutations of an account -/

/-- `bumpSecurityVersion`. -/
def bumped : Slot → Slot
  | .live a => .live { a with securityVersion := a.securityVersion + 1 }
  | c => c

/-- The next stretch of `mutateAccountSecurity` or `deleteAccount`. -/
def mutationResume (s : State) (call : Nat) (kind : Kind) (realm accountId : String) :
    Stage → State × Outcome
  | .begun =>
    match kind with
    | .mutate =>
      ((s.withUser realm accountId (bumped (s.users realm accountId))).suspend call
        (.mutation kind realm accountId .changed), .suspended)
    | .delete =>
      match (s.users realm accountId).value? with
      | none => (s.finish call, .absent)
      | some _ =>
        ((s.withUser realm accountId .retired).suspend call
          (.mutation kind realm accountId .changed), .suspended)
  | .changed =>
    ((revokeAccount s realm accountId).suspend call (.mutation kind realm accountId .revoked),
      .suspended)
  | .revoked => (s.finish call, .mutated)

/-- The start of a mutation: the account must be there. -/
def mutationStart (s : State) (kind : Kind) (realm accountId : String) : State × Outcome :=
  match (s.users realm accountId).value? with
  | none => (s.finish s.tick, .absent)
  | some _ => (s.suspend s.tick (.mutation kind realm accountId .begun), .suspended)

/-! ## The machine -/

def resume (s : State) (now : Instant) (call : Nat) : Call → State × Outcome
  | .upsertParent key next expiresIn parent version =>
    upsertResume s now call key next expiresIn parent version
  | .upsertOwn key next expiresIn parent version =>
    upsertWrite s now call key next expiresIn parent version
  | .find key ref version => findResume s call key ref version
  | .mutation kind realm accountId stage => mutationResume s call kind realm accountId stage

def perform (s : State) (now : Instant) : Action → Option (State × Outcome)
  | .upsert key payload expiresIn => some (upsert s now key payload expiresIn)
  | .find realm model column => some (find s now realm model column)
  | .mutation kind realm accountId => some (mutationStart s kind realm accountId)
  | .resume call => (s.calls call).map (resume s now call)
  | .consume key => some (consume s now key)
  | .claimInitialAccessToken realm id => some (claimInitialAccessToken s now realm id)
  | .destroy key => some (destroy s key, .done)
  | .revokeByGrantId realm model grantId => some (revokeByGrantId s realm model grantId, .done)
  | .setUser realm accountId row =>
    (setUser (s.users realm accountId) row).map fun slot =>
      (s.withUser realm accountId slot, .done)

/-- The number of the call that an action belongs to. -/
def State.callOf (s : State) : Action → Nat
  | .resume call => call
  | _ => s.tick

/-- One step of the thread. It shows the number of its call and how it ends. -/
def step (s : State) (e : Instant × Action) : Option (State × Nat × Outcome) :=
  (perform s e.1 e.2).map fun r => (r.1.tock, s.callOf e.2, r.2)

/-- Users, and no artifacts and no calls. -/
def State.initial (users : String → String → Slot) : State :=
  ⟨users, fun _ => none, .empty, fun _ => none, 0⟩

end AuthMe.Adapters.Memory

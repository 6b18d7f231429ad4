import AuthMe.Adapters.MemoryStep
import AuthMe.Adapters.Postgres
import AuthMe.Text

/-!
# The replay caches

`src/src/federation/saml-replay-cache.js` has two caches for the texts that may be used once.
`MemorySamlReplayCache` keeps records in a map and deletes them. `createAdapterSamlReplayCache`
saves them as artifacts of the model `ReplayDetection`, with either of the two adapters.

The calls come one after the other here, each at a time of its own. A value is its JSON text, which
`rest` holds in an artifact. The order of the members of an object is no part of a value, so there
is one text for each.
-/

namespace AuthMe.Federation.ReplayCache

open Adapters

/-! ## Calls -/

/-- A call. A key is `none` if it is no string, a lifetime if it is no integer. -/
inductive Call
  | putIfAbsent (key : Option String) (value : String) (ttlMs : Option Int)
  | get (key : Option String)
  | consume (key : Option String)
  deriving DecidableEq

/-- What a promise is settled with. -/
inductive Result
  | stored (isNew : Bool)
  | value (text : Option String)
  | thrown (error : AdapterError)
  deriving DecidableEq

def validateKey (key : Option String) : Except AdapterError String :=
  match key with
  | none => .error (.typeError
      "SAML replay-cache keys must be non-empty strings no longer than 1024 characters")
  | some key =>
    if key = "" ∨ 1024 < Text.length key then .error (.typeError
      "SAML replay-cache keys must be non-empty strings no longer than 1024 characters")
    else .ok key

def validateTtl (ttlMs : Option Int) : Except AdapterError Int :=
  match ttlMs with
  | none => .error (.typeError "SAML replay-cache TTL must be an integer between 1ms and 24 hours")
  | some ttlMs =>
    if isSafeInteger ttlMs = false ∨ ttlMs < 1 ∨ 24 * 60 * 60 * 1000 < ttlMs then
      .error (.typeError "SAML replay-cache TTL must be an integer between 1ms and 24 hours")
    else .ok ttlMs

/-- A call that has passed the checks. -/
inductive Op
  | put (key value : String) (ttlMs : Int)
  | get (key : String)
  | consume (key : String)
  deriving DecidableEq

/-- The checks that every method begins with. -/
def Call.check : Call → Except AdapterError Op
  | .putIfAbsent key value ttlMs => do
    let key ← validateKey key
    let ttlMs ← validateTtl ttlMs
    return .put key value ttlMs
  | .get key => do return .get (← validateKey key)
  | .consume key => do return .consume (← validateKey key)

/-- A cache: what a call that has passed the checks does. -/
abbrev Cache (σ : Type) := σ → Instant → Op → Result × σ

/-- The results of calls one after the other. -/
def results {σ : Type} (cache : Cache σ) (s : σ) : List (Instant × Call) → List Result
  | [] => []
  | (now, c) :: rest =>
    match c.check with
    | .error e => .thrown e :: results cache s rest
    | .ok op => (cache s now op).1 :: results cache (cache s now op).2 rest

/-! ## `MemorySamlReplayCache` -/

structure Record where
  value : String
  expiresAt : Int
  deriving DecidableEq

abbrev Records := OrderedMap String Record

def prune (s : Records) (now : Instant) : Records := s.filter fun _ r => !(r.expiresAt ≤ now.ms)

def memoryCache : Cache Records := fun s now op =>
  let s := prune s now
  match op with
  | .put key value ttlMs =>
    if (s.get? key).isSome then (.stored false, s)
    else (.stored true, s.set key ⟨value, now.ms + ttlMs⟩)
  | .get key => (.value ((s.get? key).map (·.value)), s)
  | .consume key =>
    match s.get? key with
    | none => (.value none, s)
    | some r => (.value (some r.value), s.erase key)

/-! ## `createAdapterSamlReplayCache` -/

/-- The methods of an adapter class that the cache calls, for the model `ReplayDetection`. -/
structure Adapter (σ : Type) where
  upsert : σ → Instant → String → Payload → Option Int → Except AdapterError Unit × σ
  find : σ → Instant → String → Except AdapterError (Option Payload) × σ
  consume : σ → Instant → String → Except AdapterError Unit × σ

/-- `/replay|one-use|already consumed/i.test(message)`. -/
def saysUsed (message : String) : Bool :=
  let text := message.toList.map asciiLower
  ["replay", "one-use", "already consumed"].any fun word => Text.hasInfix word.toList text

def oneUseConflict : AdapterError → Bool
  | .invalidRequest message => saysUsed message
  | _ => false

def adapterCache {σ : Type} (records : Adapter σ) : Cache σ := fun s now op =>
  match op with
  | .put key value ttlMs =>
    match records.upsert s now key { rest := value } (some ttlMs) with
    | (.ok (), s) => (.stored true, s)
    | (.error e, s) => if oneUseConflict e then (.stored false, s) else (.thrown e, s)
  | .get key =>
    match records.find s now key with
    | (.error e, s) => (.thrown e, s)
    | (.ok none, s) => (.value none, s)
    | (.ok (some record), s) =>
      (.value (if record.isConsumed then none else some record.rest), s)
  | .consume key =>
    match records.find s now key with
    | (.error e, s) => (.thrown e, s)
    | (.ok none, s) => (.value none, s)
    | (.ok (some record), s) =>
      if record.isConsumed then (.value none, s)
      else
        match records.consume s now key with
        | (.ok (), s) => (.value (some record.rest), s)
        | (.error e, s) => if oneUseConflict e then (.value none, s) else (.thrown e, s)

/-- The artifact of a key. -/
def artifact (realm key : String) : Key := ⟨realm, "ReplayDetection", key⟩

/-! ## The adapter in memory -/

/-- A call that is suspended goes on at once. -/
def goOn (now : Instant) (x : Memory.State × Nat × Memory.Outcome) :
    Memory.State × Nat × Memory.Outcome :=
  match x.2.2 with
  | .suspended => (Memory.step x.1 (now, .resume x.2.1)).getD x
  | _ => x

/-- A call with nothing else between its awaits. An `upsert` has two of them. -/
def alone (s : Memory.State) (now : Instant) (a : Memory.Action) : Memory.State × Memory.Outcome :=
  match Memory.step s (now, a) with
  | none => (s, .done)
  | some x =>
    let x := goOn now (goOn now x)
    (x.1, x.2.2)

def settled (x : Memory.State × Memory.Outcome) : Except AdapterError Unit × Memory.State :=
  match x.2 with
  | .failed e => (.error e, x.1)
  | _ => (.ok (), x.1)

def memoryAdapter (realm : String) : Adapter Memory.State where
  upsert s now key payload expiresIn :=
    settled (alone s now (.upsert (artifact realm key) payload expiresIn))
  find s now key :=
    let x := alone s now (.find realm "ReplayDetection" (.id key))
    match x.2 with
    | .found _ _ payload => (.ok (some payload), x.1)
    | _ => (.ok none, x.1)
  consume s now key := settled (alone s now (.consume (artifact realm key)))

/-! ## The adapter in PostgreSQL -/

/-- `fits key value`: an artifact with the two is within the limits of PostgreSQL, such as the size of
an entry of the index, or the sizes in a `jsonb`. -/
def postgresAdapter (fits : String → String → Bool) (realm : String) : Adapter Postgres.Db where
  upsert db now key payload expiresIn :=
    match (do
      discard (Postgres.prepare key payload expiresIn)
      if fits key payload.rest then
        Postgres.upsert db now (artifact realm key) payload expiresIn 0
      else .error (.database "54000")) with
    | .ok db' => (.ok (), db')
    | .error e => (.error e, db)
  find db now key :=
    match Postgres.checkIdentifier key "id" with
    | .error e => (.error e, db)
    | .ok () =>
      (.ok ((Postgres.findBy db now realm "ReplayDetection" (.id key)).map
        fun x => Postgres.restorePayload x.2), db)
  consume db now key :=
    match (do
      Postgres.checkIdentifier key "id"
      Postgres.consume db now (artifact realm key)) with
    | .ok db' => (.ok (), db')
    | .error e => (.error e, db)

end AuthMe.Federation.ReplayCache

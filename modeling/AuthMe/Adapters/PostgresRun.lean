import AuthMe.Adapters.Postgres
import AuthMe.Transition.Run

/-!
# Interleaved statements on PostgreSQL

The machine of all connections of the pool. A statement that runs by itself commits at
once. `mutateAccountSecurity` and `deleteAccount` of `src/src/db.js` are transactions:
they lock the user with `SELECT … FOR UPDATE`, and what they change is seen by the other
connections at their `COMMIT`.

* A statement that needs a row which an open transaction has locked or marked for
  deletion waits: it has no step before that transaction ends. Queries take no locks.
* `CURRENT_TIMESTAMP` is the time at which a statement was sent, and a statement that
  waited is older than others that ran before it. So the times of an order of steps are
  not required to increase.
* `tick` counts the steps. It stamps the rows (`saved`) and names the transactions.
-/

namespace AuthMe.Adapters.Postgres

/-- How far a transaction is. The list holds the keys of the rows that it has deleted. -/
inductive Stage
  | begun
  | bumped
  | revoked (doomed : List Key)
  | deleted (doomed : List Key)
  deriving DecidableEq

/-- An open transaction: its parameters, the user that it has locked, and what it has
made of that user's row. -/
structure Txn where
  kind : Kind
  realm : String
  accountId : String
  user : Uuid
  row : Account
  stage : Stage
  deriving DecidableEq

/-- The rows that the transaction has deleted, once it has run `revokeAccountSql`. -/
def Txn.revoked? (t : Txn) : Option (List Key) :=
  match t.stage with
  | .revoked doomed | .deleted doomed => some doomed
  | .begun | .bumped => none

def Txn.marked (t : Txn) : List Key := t.revoked?.getD []

structure State where
  db : Db
  txns : OrderedMap Nat Txn
  tick : Nat

def State.userLocked (s : State) (realm : String) (u : Uuid) : Bool :=
  s.txns.entries.any fun x => x.2.realm = realm && x.2.user = u

def State.rowLocked (s : State) (key : Key) : Bool :=
  s.txns.entries.any fun x => x.2.marked.contains key

/-- A statement by itself. `setUser` stands for the other statements of the program that
create a user or change one. -/
inductive Statement
  | upsert (key : Key) (payload : Payload) (expiresIn : Option Int)
  | find (realm model : String) (column : Column)
  | consume (key : Key)
  | claimInitialAccessToken (realm id : String)
  | destroy (key : Key)
  | revokeByGrantId (realm model grantId : String)
  | cleanupExpired (keys : List Key)
  | setUser (realm : String) (user : Uuid) (row : Account)
  deriving DecidableEq

/-- The steps of an open transaction. `enable` stands for the callback of
`mutateAccountSecurity` as far as it changes a column that the adapter reads. -/
inductive TxnStep
  | enable (enabled : Bool)
  | bump
  | revoke
  | deleteUser
  | commit
  | rollback
  deriving DecidableEq

/-- A step of the pool: a statement by itself, the start of a transaction, or a step of
the transaction with the given number. -/
inductive Action
  | run (statement : Statement)
  | start (kind : Kind) (realm accountId : String)
  | txn (id : Nat) (step : TxnStep)
  deriving DecidableEq

/-- What a step shows. The caller of `find*` receives `restorePayload` of the row. -/
inductive Outcome
  | done
  | failed (error : AdapterError)
  | claimed (success : Bool)
  | found (result : Option (Key × OidcRow))
  | notFound
  | begun
  | committed
  deriving DecidableEq

/-! ## Statements -/

/-- The account of the payload is selected `FOR SHARE` and locked. -/
def State.accountBlocked (s : State) (realm : String) (accountId : Option String) : Bool :=
  match accountId.bind Uuid.parse with
  | none => false
  | some u => (s.db.enabledUser realm u).isSome && s.userLocked realm u

/-- The parent Grant or its account is selected `FOR SHARE` and locked. -/
def State.parentBlocked (s : State) (now : Instant) (realm : String)
    (grantId : Option String) : Bool :=
  (match grantId with
    | none => false
    | some g => (parentGrant s.db now realm grantId).isSome && s.rowLocked ⟨realm, "Grant", g⟩) ||
  match parentAccount s.db now realm grantId with
  | none => false
  | some (u, _) => s.userLocked realm u

/-- The insertion meets a row that is being deleted. -/
def State.targetBlocked (s : State) (now : Instant) (key : Key) (payload : Payload) : Bool :=
  (security s.db now key.realm payload.accountId payload.grantId).isSome &&
    s.db.records.entries.any fun x =>
      (x.1 = key || collides key payload x.1 x.2) && s.rowLocked x.1

def State.upsertBlocked (s : State) (now : Instant) (key : Key) (payload : Payload) : Bool :=
  s.accountBlocked key.realm payload.accountId ||
    s.parentBlocked now key.realm payload.grantId || s.targetBlocked now key payload

/-- The `UPDATE` of `consume` meets a row that is being deleted. -/
def State.consumeBlocked (s : State) (now : Instant) (key : Key) : Bool :=
  (consumeStatement s.db now key).isSome && s.rowLocked key

def expired (now : Instant) (row : OidcRow) : Bool :=
  match row.expiresAt with
  | none => false
  | some t => t ≤ now.ms

def Db.withUser (db : Db) (realm : String) (u : Uuid) (slot : Slot) : Db :=
  { db with users := fun r v => if r = realm ∧ v = u then slot else db.users r v }

/-- The realm and the model of an adapter. -/
def checkNames (realm model : String) : Except AdapterError Unit := do
  requiredIdentifier realm "realm"
  requiredIdentifier model "model"
  asText realm
  asText model

def checkColumn : Column → Except AdapterError Unit
  | .id v => checkIdentifier v "id"
  | .userCode v => checkIdentifier v "userCode"
  | .uid v => checkIdentifier v "uid"

/-- What is refused before the statement runs: by the adapter, or as a parameter. -/
def Statement.check : Statement → Except AdapterError Unit
  | .upsert key payload expiresIn => do
    checkNames key.realm key.model
    discard (prepare key.id payload expiresIn)
  | .find realm model column => do
    checkNames realm model
    checkColumn column
  | .consume key | .destroy key => do
    checkNames key.realm key.model
    checkIdentifier key.id "id"
  | .claimInitialAccessToken realm id => do
    asText realm
    asText id
  | .revokeByGrantId realm model grantId => do
    checkNames realm model
    checkIdentifier grantId "grantId"
  | .cleanupExpired _ | .setUser _ _ _ => .ok ()

/-- The database after a statement whose parameters are taken, and what the statement returns;
`none` while it waits for a lock, or when the event cannot happen. -/
def execute (s : State) (now : Instant) : Statement → Option (Db × Outcome)
  | .upsert key payload expiresIn =>
    if s.upsertBlocked now key payload then none
    else
      match upsert s.db now key payload expiresIn s.tick with
      | .error e => some (s.db, .failed e)
      | .ok db' => some (db', .done)
  | .find realm model column => some (s.db, .found (findBy s.db now realm model column))
  | .consume key =>
    if s.consumeBlocked now key then none
    else
      match consume s.db now key with
      | .error e => some (s.db, .failed e)
      | .ok db' => some (db', .done)
  | .claimInitialAccessToken realm id =>
    if s.consumeBlocked now ⟨realm, "InitialAccessToken", id⟩ then none
    else
      let (success, db') := claimInitialAccessToken s.db now realm id
      some (db', .claimed success)
  | .destroy key =>
    if (s.db.records.get? key).isSome && s.rowLocked key then none
    else some (destroy s.db key, .done)
  | .revokeByGrantId realm model grantId =>
    if s.db.records.entries.any fun x =>
        x.1.realm = realm && x.1.model = model && x.2.grantId = some grantId && s.rowLocked x.1
    then none
    else some (revokeByGrantId s.db realm model grantId, .done)
  | .cleanupExpired keys =>
    -- `FOR UPDATE SKIP LOCKED LIMIT`: some of the expired rows that nobody has locked
    some ({ s.db with records := s.db.records.filter fun key row =>
      !(keys.contains key && expired now row && !s.rowLocked key) }, .done)
  | .setUser realm u row =>
    if s.userLocked realm u then none
    else (setUser (s.db.users realm u) row).map fun slot => (s.db.withUser realm u slot, .done)

def statement (s : State) (now : Instant) (st : Statement) : Option (Db × Outcome) :=
  match st.check with
  | .error e => some (s.db, .failed e)
  | .ok () => execute s now st

/-- A statement is refused and changes nothing, or it runs. -/
theorem statement_cases {s : State} {now : Instant} {st : Statement} {db : Db} {o : Outcome}
    (h : statement s now st = some (db, o)) :
    (∃ e, db = s.db ∧ o = .failed e) ∨ execute s now st = some (db, o) := by
  unfold statement at h
  split at h
  · rename_i e _
    cases h
    exact .inl ⟨e, rfl, rfl⟩
  · exact .inr h

theorem statement_of_check {s : State} {now : Instant} {st : Statement} (h : st.check = .ok ()) :
    statement s now st = execute s now st := by
  rw [statement, h]

/-! ## Transactions -/

/-- The parameters of `SELECT id FROM users … FOR UPDATE`: a text and a `uuid`. -/
def checkAccount (realm accountId : String) : Except AdapterError Uuid := do
  asText realm
  asText accountId
  match Uuid.parse accountId with
  | none => throw (.database "22P02")
  | some u => return u

theorem parse_of_checkAccount {realm accountId : String} {u : Uuid}
    (h : checkAccount realm accountId = .ok u) : Uuid.parse accountId = some u := by
  obtain ⟨-, -, h⟩ := bind_eq_ok.mp h
  obtain ⟨-, -, h⟩ := bind_eq_ok.mp h
  split at h
  · cases h
  · rename_i v hv
    cases h
    exact hv

/-- `BEGIN` and `SELECT id FROM users … FOR UPDATE`. -/
def start (s : State) (kind : Kind) (realm accountId : String) : Option (State × Outcome) :=
  match checkAccount realm accountId with
  | .error e => some ({ s with tick := s.tick + 1 }, .failed e)
  | .ok u =>
    match (s.db.users realm u).value? with
    | none => some ({ s with tick := s.tick + 1 }, .notFound)
    | some row =>
      if s.userLocked realm u then none
      else
        let t : Txn := ⟨kind, realm, accountId, u, row, .begun⟩
        some ({ s with txns := s.txns.set s.tick t, tick := s.tick + 1 }, .begun)

def State.setTxn (s : State) (id : Nat) (t : Txn) : State :=
  { s with txns := s.txns.set id t, tick := s.tick + 1 }

def State.endTxn (s : State) (id : Nat) (db : Db) : State where
  db := db
  txns := s.txns.erase id
  tick := s.tick + 1

/-- The rows that `revokeAccountSql` deletes. -/
def doomedKeys (db : Db) (realm accountId : String) : List Key :=
  (db.records.entries.filter fun x => doomed db realm accountId x.1 x.2).map Prod.fst

/-- `revokeAccountSql` in a transaction; it waits for rows that another one deletes. -/
def revoke (s : State) (id : Nat) (t : Txn) : Option (State × Outcome) :=
  let keys := doomedKeys s.db t.realm t.accountId
  if keys.any s.rowLocked then none
  else
    match t.kind, t.stage with
    | .mutate, .bumped | .delete, .begun =>
      some (s.setTxn id { t with stage := .revoked keys }, .done)
    | _, _ => none

/-- The database after the `COMMIT` of a transaction that has run to its end. -/
def committed (db : Db) (t : Txn) : Option Db :=
  let slot? : Option Slot :=
    match t.kind, t.stage with
    | .mutate, .revoked _ => some (.live t.row)
    | .delete, .deleted _ => some .retired
    | _, _ => none
  slot?.map fun slot =>
    let db := db.withUser t.realm t.user slot
    { db with records := db.records.filter fun key _ => !t.marked.contains key }

def stepTxn (s : State) (id : Nat) (t : Txn) : TxnStep → Option (State × Outcome)
  | .enable enabled =>
    if t.kind = .mutate ∧ t.stage = .begun then
      some (s.setTxn id { t with row := { t.row with enabled := enabled } }, .done)
    else none
  | .bump =>
    if t.kind = .mutate ∧ t.stage = .begun then
      some (s.setTxn id { t with
        row := { t.row with securityVersion := t.row.securityVersion + 1 }, stage := .bumped },
        .done)
    else none
  | .revoke => revoke s id t
  | .deleteUser =>
    match t.kind, t.stage with
    | .delete, .revoked doomed => some (s.setTxn id { t with stage := .deleted doomed }, .done)
    | _, _ => none
  | .commit => (committed s.db t).map fun db => (s.endTxn id db, .committed)
  | .rollback => some (s.endTxn id s.db, .done)

/-- One step of the pool. -/
def step (s : State) (e : Instant × Action) : Option (State × Outcome) :=
  match e.2 with
  | .run st => (statement s e.1 st).map fun r => ({ s with db := r.1, tick := s.tick + 1 }, r.2)
  | .start kind realm accountId => start s kind realm accountId
  | .txn id a => (s.txns.get? id).bind fun t => stepTxn s id t a

/-- Users, and no artifacts and no open transaction. -/
def State.initial (users : String → Uuid → Slot) : State := ⟨⟨users, .empty⟩, .empty, 0⟩

end AuthMe.Adapters.Postgres

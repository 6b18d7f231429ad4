import Mathlib.Data.String.Basic
import AuthMe.Transition.Run
import AuthMe.Migrations.Manifest

/-!
# The migration runner

`src/scripts/migrate.mjs`, run any number of times against one PostgreSQL server. A runner is a
session of the server and a place in the script; a step is one statement of one runner, with the
answer that reaches it. The server can refuse a statement, the connection can break before or
after the statement was executed, and a process can die at any place.

`Server.executed` is what has happened to the schema: the migrations whose SQL is committed.
-/

namespace AuthMe.Migrations

/-! ## The server -/

/-- The open transaction of a session: what it has executed and the rows that it has inserted. -/
inductive Transaction
  | active (executed : List Entry) (rows : Checksums)
  | aborted
  deriving DecidableEq

structure Server where
  /-- The table `schema_migrations`, when it exists. -/
  history : Option (OrderedMap String String)
  /-- The migrations whose SQL is committed, in the order of the commits. -/
  executed : List Entry
  /-- The session that holds the advisory lock. -/
  lock : Option Nat
  transaction : Nat → Option Transaction

inductive Statement
  | lock
  | createTable
  | selectAll
  | select (name : String)
  | begin
  | execute (e : Entry)
  | insert (name checksum : String)
  | commit
  | rollback
  | unlock
  deriving DecidableEq

def undefinedTable : QueryError :=
  ⟨"42P01", "relation \"schema_migrations\" does not exist"⟩

def uniqueViolation : QueryError :=
  ⟨"23505", "duplicate key value violates unique constraint \"schema_migrations_pkey\""⟩

def inFailedTransaction : QueryError :=
  ⟨"25P02", "current transaction is aborted, commands ignored until end of transaction block"⟩

/-- `ORDER BY name`. -/
def orderByName (rows : Checksums) : Checksums :=
  rows.insertionSort fun x y => x.1.toList ≤ y.1.toList

namespace Server

def row (s : Server) (name : String) : Option String := s.history.bind fun h => h.get? name

def setTransaction (s : Server) (i : Nat) (t : Option Transaction) : Server :=
  { s with transaction := Function.update s.transaction i t }

/-- Inserts rows whose keys are new. -/
def insertRows (h : OrderedMap String String) (rows : Checksums) : OrderedMap String String :=
  rows.foldl (fun h row => h.set row.1 row.2) h

def commit (s : Server) (executed : List Entry) (rows : Checksums) : Server :=
  { s with
    history := s.history.map fun h => insertRows h rows
    executed := s.executed ++ executed }

def unlock (s : Server) (i : Nat) : Server :=
  { s with lock := if s.lock = some i then none else s.lock }

/-- A statement of a session outside a transaction that has failed; `none` while it waits for
the lock. A runner reads only outside its transactions. -/
def execute (s : Server) (i : Nat) : Statement → Option (Server × Except QueryError Checksums)
  | .lock =>
    if s.lock = none ∨ s.lock = some i then some ({ s with lock := some i }, .ok []) else none
  | .createTable => some ({ s with history := some (s.history.getD .empty) }, .ok [])
  | .selectAll =>
    match s.history with
    | none => some (s, .error undefinedTable)
    | some h => some (s, .ok (orderByName h.entries))
  | .select name =>
    match s.history with
    | none => some (s, .error undefinedTable)
    | some h => some (s, .ok ((h.get? name).toList.map fun checksum => (name, checksum)))
  | .begin => some (s.setTransaction i (some (.active [] [])), .ok [])
  | .execute e =>
    match s.transaction i with
    | some (.active executed rows) =>
      some (s.setTransaction i (some (.active (executed ++ [e]) rows)), .ok [])
    | _ => some (s.commit [e] [], .ok [])
  | .insert name checksum =>
    if s.history = none then some (s.setTransaction i (some .aborted), .error undefinedTable)
    else if (s.row name).isSome then
      some (s.setTransaction i (some .aborted), .error uniqueViolation)
    else
      match s.transaction i with
      | some (.active executed rows) =>
        some (s.setTransaction i (some (.active executed (rows ++ [(name, checksum)]))), .ok [])
      | _ => some (s.commit [] [(name, checksum)], .ok [])
  | .commit =>
    match s.transaction i with
    | some (.active executed rows) => some ((s.commit executed rows).setTransaction i none, .ok [])
    | _ => some (s.setTransaction i none, .ok [])
  | .rollback => some (s.setTransaction i none, .ok [])
  | .unlock => some (s.unlock i, .ok [])

/-- A transaction that has failed takes nothing but its end. -/
def serve (s : Server) (i : Nat) (q : Statement) : Option (Server × Except QueryError Checksums) :=
  if s.transaction i = some .aborted ∧ q ≠ .commit ∧ q ≠ .rollback then
    some (s, .error inFailedTransaction)
  else s.execute i q

/-- A statement fails, and with it the transaction in which it was sent. -/
def refuse (s : Server) (i : Nat) : Server :=
  s.setTransaction i ((s.transaction i).map fun _ => .aborted)

/-- The session ends. -/
def drop (s : Server) (i : Nat) : Server := (s.unlock i).setTransaction i none

end Server

/-! ## The runner -/

/-- The statement that a runner waits for, with what it still needs: the entry at hand, the
entries after it, and how the run will end. -/
inductive Phase
  | idle
  | lock
  | createTable
  | history
  | check (e : Entry) (rest : List Entry)
  | begin (e : Entry) (rest : List Entry)
  | execute (e : Entry) (rest : List Entry)
  | insert (e : Entry) (rest : List Entry)
  | commit (e : Entry) (rest : List Entry)
  | rollback (error : String)
  | state
  | unlock (result : Except String Unit)
  | close (result : Except String Unit)
  | ended (result : Except String Unit)
  | crashed

def Phase.query : Phase → Option Statement
  | .lock => some .lock
  | .createTable => some .createTable
  | .history | .state => some .selectAll
  | .check e _ => some (.select e.name)
  | .begin _ _ => some .begin
  | .execute e _ => some (.execute e)
  | .insert e _ => some (.insert e.name e.checksum)
  | .commit _ _ => some .commit
  | .rollback _ => some .rollback
  | .unlock _ => some .unlock
  | .idle | .close _ | .ended _ | .crashed => none

/-- The head of `for (const { name, sql, checksum } of manifest)`. -/
def Phase.loop : List Entry → Phase
  | [] => .state
  | e :: rest => .check e rest

/-- What the runner does with the answer of its statement. -/
def Phase.resume (manifest : List Entry) : Phase → Except QueryError Checksums → Phase
  | .lock, .ok _ => .createTable
  | .createTable, .ok _ => .history
  | .history, answer =>
    match verifyMigrationHistory manifest answer with
    | .ok () => .loop manifest
    | .error message => .unlock (.error message)
  | .check e rest, .ok [] => .begin e rest
  | .check e rest, .ok (existing :: _) =>
    if existing.2 ≠ e.checksum then
      .unlock (.error ("Applied migration " ++ e.name ++ " has been modified"))
    else .loop rest
  | .begin e rest, .ok _ => .execute e rest
  | .execute e rest, .ok _ => .insert e rest
  | .insert e rest, .ok _ => .commit e rest
  | .commit _ rest, .ok _ => .loop rest
  | .execute _ _, .error error | .insert _ _, .error error | .commit _ _, .error error =>
    .rollback error.message
  | .rollback message, .ok _ => .unlock (.error message)
  | .state, answer => .unlock (verifyMigrationState manifest answer)
  -- `pg_advisory_unlock(...).catch(() => {})`
  | .unlock result, _ => .close result
  | .lock, .error error | .createTable, .error error | .check _ _, .error error
  | .begin _ _, .error error | .rollback _, .error error => .unlock (.error error.message)
  | phase, _ => phase

/-- The connection is gone: the statement at hand fails, and so does the unlock, quietly. -/
def Phase.disconnect (message : String) : Phase → Phase
  | .unlock result => .ended result
  | _ => .ended (.error message)

/-! ## The machine -/

inductive Reply
  | served
  | refused (error : QueryError)
  /-- The connection breaks, after the statement was executed or before it. -/
  | lost (executed : Bool) (message : String)

inductive Event
  | start (i : Nat)
  | reply (i : Nat) (r : Reply)
  /-- `client.release()` and `pool.end()`. -/
  | finish (i : Nat)
  | crash (i : Nat)

structure State where
  server : Server
  runners : Nat → Phase

def State.put (s : State) (server : Server) (i : Nat) (phase : Phase) : State :=
  ⟨server, Function.update s.runners i phase⟩

/-- The reply to the statement of a runner. -/
def reply (manifest : List Entry) (s : State) (i : Nat) (q : Statement) : Reply → Option State
  | .served =>
    match s.server.serve i q with
    | none => none
    | some (server, answer) => some (s.put server i ((s.runners i).resume manifest answer))
  | .refused error =>
    some (s.put (s.server.refuse i) i ((s.runners i).resume manifest (.error error)))
  | .lost false message => some (s.put (s.server.drop i) i ((s.runners i).disconnect message))
  | .lost true message =>
    match s.server.serve i q with
    | none => none
    | some (server, _) => some (s.put (server.drop i) i ((s.runners i).disconnect message))

def step (manifest : List Entry) (s : State) : Event → Option (State × Unit)
  | .start i =>
    match s.runners i with
    | .idle => some (s.put s.server i .lock, ())
    | _ => none
  | .reply i r =>
    match (s.runners i).query with
    | none => none
    | some q => (reply manifest s i q r).map fun s' => (s', ())
  | .finish i =>
    match s.runners i with
    | .close result => some (s.put (s.server.drop i) i (.ended result), ())
    | _ => none
  | .crash i =>
    match s.runners i with
    | .idle | .ended _ | .crashed => none
    | _ => some (s.put (s.server.drop i) i .crashed, ())

/-- The schema and the history agree: a row for each migration whose SQL is committed, and for
no other. -/
structure Agrees (manifest : List Entry) (s : Server) : Prop where
  subset : ∀ e ∈ s.executed, e ∈ manifest
  nodup : s.executed.Nodup
  row_iff : ∀ name checksum, s.row name = some checksum ↔
    ∃ e ∈ s.executed, e.name = name ∧ e.checksum = checksum

/-- No runner has been started: the history is any part of the manifest. -/
structure Start (manifest : List Entry) (s : State) : Prop where
  agrees : Agrees manifest s.server
  idle : ∀ i, s.runners i = .idle
  lock : s.server.lock = none
  transaction : ∀ i, s.server.transaction i = none

end AuthMe.Migrations

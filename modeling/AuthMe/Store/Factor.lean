import AuthMe.Store.Admin
import AuthMe.Transition.Run

/-!
# The second factor of an account

The operations of the two identity stores on the TOTP secret, the last TOTP step and the
recovery codes of one account, and the machine of any number of calls of them.

A method of the in-memory store runs without a pause, and so does a single `UPDATE` of
PostgreSQL, which waits for the lock of the row. `PostgresIdentityStore.consumeRecoveryCode`
is a transaction: it reads the codes and locks the row, and writes the codes back. The
other writers of the row wait until it is over.
-/

namespace AuthMe.Store

/-- The arguments of `confirmTotpEnrollment`. -/
structure Enrollment where
  pendingSecret : String
  activeSecret : String
  step : Int
  recoveryCodeHashes : List String
  deriving DecidableEq

/-- The arguments of `configureTotp`. -/
structure TotpConfiguration where
  secret : Option String
  confirmed : Bool
  recoveryCodeHashes : Option (List String)
  deriving DecidableEq

namespace User

def beginTotpEnrollment (u : User) (pendingSecret : String) (now : Instant) : User :=
  { u with pendingTotpSecret := some pendingSecret, pendingTotpCreatedAt := some now.ms }

/-- A pending enrollment is good for ten minutes. -/
def pendingFresh (backend : Backend) (u : User) (now : Instant) : Bool :=
  match u.pendingTotpCreatedAt, backend with
  | none, _ => false
  | some createdAt, .memory => now.ms - createdAt ≤ 10 * 60000
  | some createdAt, .postgres => now.ms - 10 * 60000 < createdAt

/-- `none` when the enrollment is not the pending one. -/
def confirmTotpEnrollment (backend : Backend) (u : User) (now : Instant) (e : Enrollment) :
    Option User :=
  if u.pendingFresh backend now ∧ u.pendingTotpSecret = some e.pendingSecret ∧
      isSafeInteger e.step then
    some { u with
      totpSecret := some e.activeSecret
      totpConfirmed := true
      pendingTotpSecret := none
      pendingTotpCreatedAt := none
      recoveryCodeHashes := e.recoveryCodeHashes
      lastTotpStep := some e.step }
  else none

def configureTotp (u : User) (c : TotpConfiguration) : User :=
  { u with
    totpSecret := c.secret
    totpConfirmed := c.confirmed
    lastTotpStep := if c.confirmed then u.lastTotpStep else none
    pendingTotpSecret := if c.confirmed then u.pendingTotpSecret else none
    pendingTotpCreatedAt := if c.confirmed then u.pendingTotpCreatedAt else none
    recoveryCodeHashes := c.recoveryCodeHashes.getD u.recoveryCodeHashes }

/-- `consumeTotpStep`, with the check of its argument. -/
def acceptTotpStep (u : User) (step : Int) : Option User :=
  if isSafeInteger step then u.consumeTotpStep step else none

end User

namespace Factor

/-! ## Calls -/

inductive Call
  | beginTotpEnrollment (pendingSecret : String)
  | confirmTotpEnrollment (e : Enrollment)
  | configureTotp (c : TotpConfiguration)
  | consumeTotpStep (step : Int)
  | consumeRecoveryCode (digest : String)
  deriving DecidableEq

/-- The row after a call that succeeds. -/
def Call.apply (backend : Backend) (now : Instant) (u : User) : Call → Option User
  | .beginTotpEnrollment pendingSecret => some (u.beginTotpEnrollment pendingSecret now)
  | .confirmTotpEnrollment e => u.confirmTotpEnrollment backend now e
  | .configureTotp c => some (u.configureTotp c)
  | .consumeTotpStep step => u.acceptTotpStep step
  | .consumeRecoveryCode digest => u.consumeRecoveryCode digest

/-- A call that has returned, and whether it has succeeded. -/
structure Done where
  call : Call
  ok : Bool
  deriving DecidableEq

/-! ## The machine -/

/-- An open transaction of `consumeRecoveryCode`: the codes it has read, or the codes it
has written back and not yet committed. -/
inductive Transaction
  | selected (digest : String) (hashes : List String)
  | updated (digest : String) (hashes : List String)
  deriving DecidableEq

/-- The clock, the committed row, and the transaction that holds the lock of the row. -/
structure State where
  clock : Instant
  user : User
  transaction : Option Transaction

inductive Event
  | elapse (clock : Instant)
  | call (c : Call)
  | select (digest : String)
  | update
  | commit
  | rollback
  deriving DecidableEq

/-- The call is one statement, and not a transaction. -/
def isStatement : Backend → Call → Bool
  | .postgres, .consumeRecoveryCode _ => false
  | _, _ => true

/-- One step of the calls on an account; it shows the call that has returned with it. A
transaction that found the code and is rolled back has failed without an answer. -/
def step (backend : Backend) (s : State) : Event → Option (State × Option Done)
  | .elapse clock =>
    if s.clock.ms ≤ clock.ms then some ({ s with clock := clock }, none) else none
  | .call c =>
    if s.transaction = none ∧ isStatement backend c then
      match c.apply backend s.clock s.user with
      | none => some (s, some ⟨c, false⟩)
      | some user => some ({ s with user := user }, some ⟨c, true⟩)
    else none
  | .select digest =>
    if s.transaction = none ∧ backend = .postgres then
      some ({ s with transaction := some (.selected digest s.user.recoveryCodeHashes) }, none)
    else none
  | .update =>
    match s.transaction with
    | some (.selected digest hashes) =>
      if digest ∈ hashes then
        some ({ s with transaction := some (.updated digest (hashes.erase digest)) }, none)
      else none
    | _ => none
  | .commit =>
    match s.transaction with
    | some (.updated digest hashes) =>
      some ({ s with user := { s.user with recoveryCodeHashes := hashes }, transaction := none },
        some ⟨.consumeRecoveryCode digest, true⟩)
    | _ => none
  | .rollback =>
    match s.transaction with
    | some (.selected digest hashes) =>
      some ({ s with transaction := none },
        if digest ∈ hashes then none else some ⟨.consumeRecoveryCode digest, false⟩)
    | some (.updated _ _) => some ({ s with transaction := none }, none)
    | none => none

/-- No transaction is open. -/
def State.initial (clock : Instant) (user : User) : State := ⟨clock, user, none⟩

/-- The calls that have returned, in the order in which they took effect. -/
def returned (tr : List (Event × Option Done)) : List Done := tr.filterMap Prod.snd

/-! ## What the calls are about -/

/-- The factor is set anew. -/
def Done.isReset (d : Done) : Bool :=
  match d.call with
  | .confirmTotpEnrollment _ | .configureTotp _ => d.ok
  | _ => false

/-- The TOTP step that the call has recorded, at the login or at the enrollment. -/
def Done.recorded? (d : Done) : Option Int :=
  match d.call with
  | .consumeTotpStep step => if d.ok then some step else none
  | .confirmTotpEnrollment e => if d.ok then some e.step else none
  | _ => none

/-- An enrollment begins, or the pending one ends: by a confirmation or a reset. -/
def Done.touchesPending (d : Done) : Bool :=
  d.ok &&
    match d.call with
    | .beginTotpEnrollment _ | .confirmTotpEnrollment _ => true
    | .configureTotp c => !c.confirmed
    | _ => false

end Factor

end AuthMe.Store

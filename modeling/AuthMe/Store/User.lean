import AuthMe.Collections.OrderedMap
import AuthMe.Basic

/-!
# Users of the identity store

The table `users` and the operations of `MemoryIdentityStore` and
`PostgresIdentityStore` (`src/src/repositories/identity-store.js`) on one row of it. The
two stores compute the same: what one writes as a sequence of assignments the other
writes as `CASE` expressions. The columns that no modelled function reads are left out.
-/

namespace AuthMe.Store

structure User where
  realm : String
  id : String
  username : String
  email : String
  emailVerified : Bool := false
  name : String := ""
  givenName : String := ""
  familyName : String := ""
  enabled : Bool := true
  securityVersion : Nat := 0
  passwordHash : String := ""
  roles : List String := []
  groups : List String := []
  totpSecret : Option String := none
  totpConfirmed : Bool := false
  recoveryCodeHashes : List String := []
  lastTotpStep : Option Int := none
  failedAttempts : Nat := 0
  lockedUntil : Option Int := none
  pendingTotpSecret : Option String := none
  pendingTotpCreatedAt : Option Int := none
  deriving DecidableEq

namespace User

/-- `user.lockedUntil && new Date(user.lockedUntil).getTime() > Date.now()`. -/
def isLocked (u : User) (now : Instant) : Bool :=
  match u.lockedUntil with
  | none => false
  | some t => now.ms < t

/-- An account is locked for 15 minutes. -/
def lockTime : Int := 15 * 60000

def recordLoginFailure (u : User) (now : Instant) : User :=
  if u.isLocked now then u
  else
    let attempts := (if u.lockedUntil.isSome then 0 else u.failedAttempts) + 1
    { u with
      failedAttempts := attempts
      lockedUntil := if 5 ≤ attempts then some (now.ms + lockTime) else none }

def recordLoginSuccess (u : User) : User := { u with failedAttempts := 0, lockedUntil := none }

def unlock (u : User) : User := { u with failedAttempts := 0, lockedUntil := none }

def bumpSecurityVersion (u : User) : User := { u with securityVersion := u.securityVersion + 1 }

/-- `none` when the step is not newer than the last one. -/
def consumeTotpStep (u : User) (step : Int) : Option User :=
  match u.lastTotpStep with
  | none => some { u with lastTotpStep := some step }
  | some last => if last < step then some { u with lastTotpStep := some step } else none

/-- `none` when the code is not there. -/
def consumeRecoveryCode (u : User) (digest : String) : Option User :=
  if digest ∈ u.recoveryCodeHashes then
    some { u with recoveryCodeHashes := u.recoveryCodeHashes.erase digest }
  else none

def rehashPasswordIfCurrent (u : User) (expectedHash passwordHash : String) : Option User :=
  if u.passwordHash = expectedHash then some { u with passwordHash := passwordHash } else none

end User

/-- The key of a user: realm and identifier. -/
abbrev UserKey := String × String

abbrev Users := OrderedMap UserKey User

/-- Changes the row of a user, if there is one. -/
def Users.modify (users : Users) (key : UserKey) (f : User → User) : Users :=
  match users.get? key with
  | none => users
  | some u => users.set key (f u)

theorem Users.get?_modify (users : Users) (key a : UserKey) (f : User → User) :
    (users.modify key f).get? a = if a = key then (users.get? a).map f else users.get? a := by
  unfold Users.modify
  by_cases ha : a = key
  · subst ha
    cases h : users.get? a with
    | none => simp [h]
    | some u => simp
  · cases h : users.get? key with
    | none => simp [ha]
    | some u => simp [ha, OrderedMap.get?_set_of_ne]

end AuthMe.Store

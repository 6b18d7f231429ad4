import AuthMe.Basic
import AuthMe.Transition.Epoch

/-!
# Artifacts of oidc-provider

What the two adapters (`src/src/adapters/memory.js`, `src/src/adapters/postgres.js`)
share: the payload that oidc-provider hands to `upsert`, the key under which it is kept,
the columns of a user that they read, and the errors.
-/

namespace AuthMe.Adapters

/-- The columns of a user that the adapters read. -/
structure Account where
  enabled : Bool
  securityVersion : Nat
  deriving DecidableEq

/-- The place of a user. Identifiers come from `randomUUID`, so the place of a deleted
user stays empty. -/
abbrev Slot := Epoch.Cell Account

/-- The user, if it is enabled. -/
def enabledAccount (slot : Slot) : Option Account := slot.value?.filter (·.enabled)

/-- `user?.enabled ? user.securityVersion : null`. -/
def enabledVersion (slot : Slot) : Option Nat := (enabledAccount slot).map (·.securityVersion)

theorem value?_of_enabledAccount {slot : Slot} {a : Account} (h : enabledAccount slot = some a) :
    slot.value? = some a := (Option.filter_eq_some_iff.mp h).1

/-- The version of the user has been `n`, or still is. -/
abbrev Seen (slot : Slot) (n : Nat) : Prop := Epoch.Cell.Seen Account.securityVersion slot n

/-- The version of the user will not be `n` any more. -/
abbrev Past (slot : Slot) (n : Nat) : Prop := Epoch.Cell.Past Account.securityVersion slot n

theorem seen_of_enabledVersion {slot : Slot} {n : Nat} (h : enabledVersion slot = some n) :
    Seen slot n := by
  obtain ⟨a, ha, rfl⟩ := Option.map_eq_some_iff.mp h
  exact Epoch.Cell.seen_of_value? (value?_of_enabledAccount ha)

theorem lt_of_past {slot : Slot} {n v : Nat} (h : Past slot n) (hv : enabledVersion slot = some v) :
    n < v := by
  obtain ⟨a, ha, rfl⟩ := Option.map_eq_some_iff.mp hv
  by_contra hle
  exact h.not_current (Nat.le_of_not_lt hle) (value?_of_enabledAccount ha) rfl

/-- A user is created at an unused identifier, or changed without going back to an older
security version. -/
def setUser (slot : Slot) (row : Account) : Option Slot :=
  match slot with
  | .unused => some (.live row)
  | .live old => if old.securityVersion ≤ row.securityVersion then some (.live row) else none
  | .retired => none

theorem le_of_setUser {slot slot' : Slot} {row : Account} (h : setUser slot row = some slot') :
    Epoch.Cell.Le Account.securityVersion slot slot' := by
  unfold setUser at h
  split at h
  · trivial
  · split at h
    · rename_i hle
      cases h
      exact hle
    · cases h
  · cases h

/-- The two calls of the data layer that revoke the artifacts of an account:
`mutateAccountSecurity` and `deleteAccount`. -/
inductive Kind
  | mutate
  | delete
  deriving DecidableEq

/-- What `find`, `findByUserCode` and `findByUid` compare. -/
inductive Column
  | id (value : String)
  | userCode (value : String)
  | uid (value : String)
  deriving DecidableEq

/-- The payload of an artifact. The members that an adapter reads are fields; `rest` is
the JSON text of all the others. A member that is absent, `null` or `undefined` is
`none`. `consumed` is in seconds since 1970. -/
structure Payload where
  accountId : Option String := none
  grantId : Option String := none
  userCode : Option String := none
  uid : Option String := none
  consumed : Option Int := none
  rest : String := ""
  deriving DecidableEq

namespace Payload

/-- `Boolean(payload.consumed)`. -/
def isConsumed (p : Payload) : Bool :=
  match p.consumed with
  | none => false
  | some c => c ≠ 0

end Payload

/-- The key of an artifact: realm, model name and identifier. -/
@[ext] structure Key where
  realm : String
  model : String
  id : String
  deriving DecidableEq

/-- The errors of the adapters: the two classes of oidc-provider, `TypeError`, and an
error of the database by its code. -/
inductive AdapterError
  | invalidGrant (message : String)
  | invalidRequest (message : String)
  | typeError (message : String)
  | database (code : String)
  deriving DecidableEq

/-- The models whose second redemption is an `InvalidGrant`. -/
def oneUseGrantModels : List String :=
  ["AuthorizationCode", "RefreshToken", "DeviceCode", "BackchannelAuthenticationRequest"]

/-- The error of `consume` when there is nothing left to consume; it is the same in both
adapters. -/
def alreadyConsumed (model : String) : AdapterError :=
  if oneUseGrantModels.contains model then
    .invalidGrant "one-use grant artifact was already consumed"
  else .invalidRequest "one-use artifact was already consumed"

end AuthMe.Adapters

import AuthMe.DataLayer.LoginNames
import AuthMe.Federation.Mapping
import AuthMe.Service.Locks

/-!
# Federated identities in memory

`MemoryFederatedIdentityRepository`, as programs over the identity store, the map of the links and the
locks. What `link` does after it has read the user is one operation, as there is no pause in it; where
the code pauses in between, the operations of others can come between two operations here, and in some
more places. A lock is given to any call that waits for it. The rest of the program can do anything to
the identity store.

`randomUUID` draws no identifier that is in use.
-/

namespace AuthMe.Federation.Mapping.Memory

open DataLayer.Tables (Account)
open Scim (LowerCase)
open Service (Interface Program Entry Answered)

/-! ## Operations -/

/-- What the turn of `link` finds in the map of the links. -/
inductive Attached
  | linked (link : Link)
  | conflict (link : Link)

inductive Op
  | lock (lockKey : String)
  | unlock (lockKey : String)
  /-- `this.#links.get(key(identity))` -/
  | getLink (identity : Identity)
  /-- `this.#links.delete(key(identity))` -/
  | deleteLink (identity : Identity)
  /-- `this.#links.set(key(identity), link)` -/
  | setLink (link : Link)
  /-- The end of `link`. -/
  | attach (identity : Identity) (userId : String)
  | list (realm userId : String)
  | unlink (realm userId providerId issuer : String)
  | findUserById (realm id : String)
  | findUserByLogin (realm login : String)
  | randomUUID
  /-- The store adds the times. -/
  | createUser (user : Store.User)

@[reducible] def Op.Res : Op → Type
  | .lock _ | .unlock _ | .deleteLink _ | .setLink _ => Unit
  | .getLink _ | .unlink .. => Option Link
  | .attach .. => Attached
  | .list .. => List Link
  | .findUserById .. | .findUserByLogin .. => Option Account
  | .randomUUID => String
  | .createUser _ => Except Failure Account

abbrev operations : Interface := ⟨Op, Op.Res⟩

abbrev Method : Type := Program operations (Reply Account)

def ask (op : Op) : Program operations op.Res := .await op .done

/-! ## The methods -/

/-- `#locked(lockKey, operation)`. An operation that throws answers with its failure. -/
def locked (lockKey : String) (operation : Method) : Method := do
  ask (.lock lockKey)
  let reply ← operation
  ask (.unlock lockKey)
  return reply

/-- The user that logs in with the name or the address of the profile. -/
def collision (realm : String) (profile : Scim.Profile) : Program operations (Option Account) := do
  match ← ask (.findUserByLogin realm profile.username) with
  | some user => return some user
  | none =>
    if profile.email = "" then return none
    else ask (.findUserByLogin realm profile.email)

section

variable (lower : LowerCase) (disabledPasswordHash : String)

/-- The user that is created for an identity. -/
def newUser (normalized : Normalized) (userId : String) : Store.User where
  id := userId
  realm := normalized.identity.realm
  username := normalized.profile.username
  email := Scim.orText normalized.profile.email (syntheticEmail userId)
  emailVerified := normalized.profile.emailVerified
  name := normalized.profile.name
  givenName := normalized.profile.givenName
  familyName := normalized.profile.familyName
  enabled := true
  passwordHash := disabledPasswordHash
  roles := normalized.profile.roles
  groups := normalized.profile.groups

/-- What `resolve` does where there is no collision. -/
def create (normalized : Normalized) : Method := do
  let userId ← ask .randomUUID
  match ← ask (.createUser (newUser disabledPasswordHash normalized userId)) with
  | .ok user =>
    let link : Link := ⟨normalized.identity, user.id⟩
    ask (.setLink link)
    return .mapped .created user link
  | .error .userExists =>
    match ← collision normalized.identity.realm normalized.profile with
    | some user => return .linkRequired (some user)
    | none => return .failed .userExists
  | .error e => return .failed e

/-- What `resolve` does for an identity without a link. -/
def resolveNew (normalized : Normalized) : Method := do
  if !normalized.allowCreate then return .notFound
  else
    match ← collision normalized.identity.realm normalized.profile with
    | some user => return .linkRequired (some user)
    | none => create disabledPasswordHash normalized

/-- What `resolve` does under the lock. -/
def resolveLocked (normalized : Normalized) : Method := do
  match ← ask (.getLink normalized.identity) with
  | none => resolveNew disabledPasswordHash normalized
  | some existing =>
    match ← ask (.findUserById normalized.identity.realm existing.userId) with
    | some user => return .mapped (if user.enabled then .resolved else .disabled) user existing
    | none =>
      ask (.deleteLink normalized.identity)
      resolveNew disabledPasswordHash normalized

def resolve (input : Input) : Method :=
  match normalize lower input with
  | .error message => return .failed (.invalid message)
  | .ok normalized =>
    locked (key normalized.identity) (resolveLocked disabledPasswordHash normalized)

/-- What `link` does under the two locks. -/
def linkLocked (identity : Identity) (userId : String) : Method := do
  match ← ask (.findUserById identity.realm userId) with
  | none => return .notFound
  | some user =>
    match ← ask (.attach identity user.id) with
    | .linked link => return .linked link
    | .conflict link => return .conflict (some link)

def link (input : Input) (userId : String) : Method :=
  match normalizeLink lower input userId with
  | .error message => return .failed (.invalid message)
  | .ok normalized =>
    locked (userProviderKey normalized.identity userId)
      (locked (key normalized.identity) (linkLocked normalized.identity userId))

def method : Request → Method
  | .resolve input => resolve lower disabledPasswordHash input
  | .link input userId => link lower input userId
  | .list realm userId => do return .links (← ask (.list realm userId))
  | .unlink realm userId providerId issuer => do
    return .unlinked (← ask (.unlink realm userId providerId issuer))

end

/-! ## The store -/

structure State where
  accounts : DataLayer.Tables.State
  links : Table String Link Link.key
  locks : List String
  /-- The identifiers that have been drawn, or that a user has had. -/
  issued : List String

/-- What `randomUUID` draws, the time, and whether the store fails for another reason. -/
structure Choice where
  id : String
  now : Int
  fails : Bool

namespace State

variable (s : State)

/-- The end of `link`. -/
def attach (identity : Identity) (userId : String) : Attached × State :=
  match s.links.get? (key identity) with
  | some existing =>
    (if existing.userId = userId then .linked existing else .conflict existing, s)
  | none =>
    match s.links.rows.find? (·.joins identity.realm userId identity.providerId identity.issuer) with
    | some userProviderLink => (.conflict userProviderLink, s)
    | none => (.linked ⟨identity, userId⟩, { s with links := s.links.insert ⟨identity, userId⟩ })

def unlink (realm userId providerId issuer : String) : Option Link × State :=
  match s.links.rows.find? (·.joins realm userId providerId issuer) with
  | none => (none, s)
  | some link => (some link, { s with links := s.links.erase link.key })

def answer (lower : LowerCase) (choice : Choice) : (op : Op) → Option (op.Res × State)
  | .lock lockKey =>
    if lockKey ∈ s.locks then none else some ((), { s with locks := lockKey :: s.locks })
  | .unlock lockKey => some ((), { s with locks := s.locks.filter (· ≠ lockKey) })
  | .getLink identity => some (s.links.get? (key identity), s)
  | .deleteLink identity => some ((), { s with links := s.links.erase (key identity) })
  | .setLink link => some ((), { s with links := s.links.insert link })
  | .attach identity userId => some (s.attach identity userId)
  | .list realm userId =>
    some (s.links.rows.filter fun link => link.identity.realm = realm && link.userId = userId, s)
  | .unlink realm userId providerId issuer => some (s.unlink realm userId providerId issuer)
  | .findUserById realm id => some (s.accounts.users.get? (realm, id), s)
  | .findUserByLogin realm login =>
    some (s.accounts.findUserByLogin ⟨lower.apply⟩ realm login, s)
  | .randomUUID =>
    if choice.id ∈ s.issued then none
    else some (choice.id, { s with issued := choice.id :: s.issued })
  | .createUser user =>
    if choice.fails then some (.error .other, s)
    else
      let account : Account := { toUser := user, createdAt := choice.now, updatedAt := choice.now }
      match s.accounts.createUser ⟨lower.apply⟩ account with
      | .error _ => some (.error .userExists, s)
      | .ok accounts =>
        some (.ok (DataLayer.Tables.normalizeUser ⟨lower.apply⟩ account),
          { s with accounts := accounts })

/-- The rest of the program has left these accounts. -/
def change (accounts : DataLayer.Tables.State) : State :=
  { s with accounts := accounts, issued := accounts.users.rows.map (·.id) ++ s.issued }

end State

/-- The repository over an identity store. -/
def service (lower : LowerCase) (disabledPasswordHash : String) :
    Service operations State Request (Reply Account) Choice DataLayer.Tables.State where
  program := method lower disabledPasswordHash
  answer s choice op := s.answer lower choice op
  change s accounts := some (s.change accounts)

variable {lower : LowerCase} {disabledPasswordHash : String} {s s' : State}

/-- The end of `link` finds the link of the identity, or another one of the user, or makes the link. -/
theorem attach_cases {identity : Identity} {userId : String} {attached : Attached}
    (h : s.attach identity userId = (attached, s')) :
    (s' = s ∧ (∀ link, attached = .linked link →
      link.userId = userId ∧ s.links.get? (key identity) = some link) ∧
      ∀ link, attached = .conflict link → link ∈ s.links.rows) ∨
    attached = .linked ⟨identity, userId⟩ ∧
      s' = { s with links := s.links.insert ⟨identity, userId⟩ } ∧
      s.links.get? (key identity) = none ∧
      ∀ other ∈ s.links.rows,
        other.joins identity.realm userId identity.providerId identity.issuer = false := by
  unfold State.attach at h
  split at h
  · rename_i existing hget
    have hmem : existing ∈ s.links.rows :=
      Table.mem_rows_iff.mpr ((Table.keyOf_of_get? hget).symm ▸ hget)
    split at h
    · rename_i huser
      cases h
      refine .inl ⟨rfl, fun link hlinked => ?_, by simp⟩
      cases hlinked
      exact ⟨huser, hget⟩
    · cases h
      refine .inl ⟨rfl, by simp, fun link hconflict => ?_⟩
      cases hconflict
      exact hmem
  · rename_i hnone
    split at h
    · rename_i hfound
      cases h
      refine .inl ⟨rfl, by simp, fun link hconflict => ?_⟩
      cases hconflict
      exact List.mem_of_find?_eq_some hfound
    · rename_i halone
      cases h
      refine .inr ⟨rfl, rfl, hnone, fun other hother => ?_⟩
      exact Bool.not_eq_true _ ▸ List.find?_eq_none.mp halone other hother

theorem unlink_cases {realm userId providerId issuer : String} {found : Option Link}
    (h : s.unlink realm userId providerId issuer = (found, s')) :
    (found = none ∧ s' = s) ∨
      ∃ link ∈ s.links.rows, found = some link ∧
        s' = { s with links := s.links.erase link.key } := by
  unfold State.unlink at h
  split at h
  · cases h
    exact .inl ⟨rfl, rfl⟩
  · rename_i link hfound
    cases h
    exact .inr ⟨link, List.mem_of_find?_eq_some hfound, rfl, rfl⟩

/-! ## The locks -/

def lockTable : Service.Locks operations State String where
  takes
    | .lock lockKey => some lockKey
    | _ => none
  releases
    | .unlock lockKey => some lockKey
    | _ => none
  taken lockKey s := lockKey ∈ s.locks

theorem lockTable_sound : lockTable.Sound (service lower disabledPasswordHash) where
  free := by
    intro s choice op res s' lockKey hanswer htakes
    cases op with
    | lock k =>
      cases htakes
      change (if lockKey ∈ s.locks then none else some ((), _)) = some (res, s') at hanswer
      split at hanswer
      · cases hanswer
      · assumption
    | _ => cases htakes
  answer := by
    intro s choice op res s' lockKey hanswer
    change s.answer lower choice op = some (res, s') at hanswer
    change lockKey ∈ s'.locks ↔ _ ∨ lockKey ∈ s.locks ∧ _
    unfold State.answer at hanswer
    cases op with
    | lock k =>
      dsimp only at hanswer
      split at hanswer
      · cases hanswer
      · cases hanswer
        simp [lockTable, eq_comm]
    | unlock k =>
      cases hanswer
      simp only [lockTable, List.mem_filter, decide_eq_true_eq, reduceCtorEq, false_or, ne_eq,
        Option.some.injEq]
      exact and_congr_right fun _ => not_congr eq_comm
    | attach identity userId =>
      have hboth : s.attach identity userId = (res, s') := Option.some.inj hanswer
      rcases attach_cases hboth with ⟨rfl, -⟩ | ⟨-, rfl, -⟩
      · simp [lockTable]
      · simp [lockTable]
    | unlink realm userId providerId issuer =>
      have hboth : s.unlink realm userId providerId issuer = (res, s') := Option.some.inj hanswer
      rcases unlink_cases hboth with ⟨-, rfl⟩ | ⟨link, -, -, rfl⟩
      · simp [lockTable]
      · simp [lockTable]
    | randomUUID =>
      dsimp only at hanswer
      split at hanswer
      · cases hanswer
      · cases hanswer
        simp [lockTable]
    | createUser user =>
      dsimp only at hanswer
      split at hanswer
      · cases hanswer
        simp [lockTable]
      · split at hanswer <;> cases hanswer <;> simp [lockTable]
    | _ =>
      cases hanswer
      simp [lockTable]
  change := by
    intro s accounts s' lockKey hchange
    cases hchange
    rfl

end AuthMe.Federation.Mapping.Memory

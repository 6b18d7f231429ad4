import AuthMe.Adapters.Parameters
import AuthMe.Collections.OrderedMap

/-!
# The PostgreSQL adapter, statement by statement

`src/src/adapters/postgres.js` runs one SQL statement for each call. A statement is a
function on the database here, at the time that `CURRENT_TIMESTAMP` has for it.

* `Db` holds the tables `users` and `oidc_records`. The key of a record is the primary
  key of its row.
* `upsert` is the `INSERT … SELECT … FROM security … ON CONFLICT` statement with the
  checks that `PostgresAdapter.upsert` makes before and after it, and those of its
  parameters; `security` is the common table expression of that name.
* `findBy` is the query of `find`, `findByUserCode` and `findByUid`, which differ in the
  column that they compare.
* `revokeAccount` is `revokeAccountSql` of `src/src/db.js`.

A row also carries `saved`, which is no column: the time in statements at which the row
was last written by an `upsert`. No statement reads it.
-/

namespace AuthMe.Adapters.Postgres

/-- A row of `oidc_records` without its key. The stored payload has no `consumed`
member, the column `consumedAt` holds the time. -/
structure OidcRow where
  payload : Payload
  expiresAt : Option Int
  consumedAt : Option Int
  grantId : Option String
  userCode : Option String
  uid : Option String
  accountSecurityVersion : Option Nat
  saved : Nat := 0
  deriving DecidableEq

structure Db where
  users : String → Uuid → Slot
  records : OrderedMap Key OidcRow

/-- `expires_at IS NULL OR expires_at > CURRENT_TIMESTAMP`. -/
def OidcRow.live (row : OidcRow) (now : Instant) : Bool :=
  match row.expiresAt with
  | none => true
  | some t => now.ms < t

/-- `restorePayload`: the consumption time comes back as whole seconds. -/
def restorePayload (row : OidcRow) : Payload :=
  match row.consumedAt with
  | none => row.payload
  | some ms => { row.payload with consumed := some (ms / 1000) }

/-! ## `upsert` -/

/-- `requiredIdentifier` on a string. -/
def requiredIdentifier (value name : String) : Except AdapterError Unit :=
  if value = "" then .error (.typeError (name ++ " must be a non-empty string")) else .ok ()

/-- An identifier that is a parameter of a query. -/
def checkIdentifier (value name : String) : Except AdapterError Unit := do
  requiredIdentifier value name
  asText value

def optionalIdentifier (value : Option String) (name : String) : Except AdapterError Unit :=
  match value with
  | none => .ok ()
  | some v => requiredIdentifier v name

/-- `ttlSeconds`. Lifetimes are in milliseconds here. -/
def ttlSeconds (expiresIn : Option Int) : Except AdapterError Unit :=
  match expiresIn with
  | none => .ok ()
  | some t =>
    if t < 0 then .error (.typeError "expiresIn must be a non-negative number of seconds")
    else .ok ()

/-- `storedPayload`: the consumption time of the payload in milliseconds. -/
def consumedAt (payload : Payload) : Except AdapterError (Option Int) :=
  match payload.consumed with
  | none => .ok none
  | some c =>
    if c < 0 then
      .error (.typeError "payload.consumed must be a non-negative epoch timestamp")
    else .ok (some (c * 1000))

def requireUuid (accountId : Option String) : Except AdapterError Unit :=
  match accountId with
  | none => .ok ()
  | some a =>
    if (Uuid.parse a).isSome then .ok ()
    else .error (.typeError "payload.accountId must be a UUID")

/-- The checks that `upsert` makes before its statement, in their order. -/
def checkInput (id : String) (payload : Payload) (expiresIn : Option Int) :
    Except AdapterError (Option Int) := do
  requiredIdentifier id "id"
  ttlSeconds expiresIn
  let consumed ← consumedAt payload
  optionalIdentifier payload.grantId "payload.grantId"
  optionalIdentifier payload.userCode "payload.userCode"
  optionalIdentifier payload.uid "payload.uid"
  optionalIdentifier payload.accountId "payload.accountId"
  requireUuid payload.accountId
  return consumed

/-- What is refused before the statement runs: by `upsert`, or as a parameter. -/
def prepare (id : String) (payload : Payload) (expiresIn : Option Int) :
    Except AdapterError (Option Int) := do
  let consumed ← checkInput id payload expiresIn
  asText id
  asPayload payload
  return consumed

/-- The enabled user of a realm. -/
def Db.enabledUser (db : Db) (realm : String) (u : Uuid) : Option Account :=
  enabledAccount (db.users realm u)

/-- The expression `account`. -/
def account (db : Db) (realm : String) (accountId : Option String) : Option Account :=
  accountId.bind fun a => (Uuid.parse a).bind (db.enabledUser realm)

/-- The expression `parent_grant`: the live Grant row. -/
def parentGrant (db : Db) (now : Instant) (realm : String) (grantId : Option String) :
    Option OidcRow :=
  grantId.bind fun g => (db.records.get? ⟨realm, "Grant", g⟩).filter (·.live now)

/-- The expression `parent_account`: the enabled user whose text identifier is the
Grant's account and whose security version is the Grant's. -/
def parentAccount (db : Db) (now : Instant) (realm : String) (grantId : Option String) :
    Option (Uuid × Nat) :=
  (parentGrant db now realm grantId).bind fun grant =>
    (grant.payload.accountId.bind Uuid.ofText?).bind fun u =>
      ((db.enabledUser realm u).filter fun user =>
        grant.accountSecurityVersion = some user.securityVersion).map fun user =>
          (u, user.securityVersion)

/-- The row of `security`, if it is `valid`: the security version and the account. `$10::uuid` makes a
`uuid` of the parameter, so `$10::text` is the canonical text, however the payload spells it. -/
def security (db : Db) (now : Instant) (realm : String) (accountId grantId : Option String) :
    Option (Option Nat × Option String) :=
  let acc := account db realm accountId
  let parent := parentAccount db now realm grantId
  if (accountId = none ∨ acc.isSome) ∧ (grantId = none ∨ parent.isSome) ∧
      (accountId = none ∨ grantId = none ∨ parent.map (·.1) = accountId.bind Uuid.parse) then
    some ((acc.map (·.securityVersion)).or (parent.map (·.2)),
      ((accountId.bind Uuid.parse).or (parent.map (·.1))).map (·.text))
  else none

/-- What a valid row of `security` says: the version is the one of the account that the
payload gets, and under a Grant that account is the Grant's, at the Grant's version. -/
theorem security_eq_some {db : Db} {now : Instant} {realm : String}
    {accountId grantId : Option String} {version : Option Nat} {owner : Option String}
    (h : security db now realm accountId grantId = some (version, owner)) :
    (∀ u, owner.bind Uuid.parse = some u →
      ∃ v, version = some v ∧ enabledVersion (db.users realm u) = some v) ∧
    (∀ a, accountId = some a → ∃ u, Uuid.parse a = some u ∧ owner = some u.text) ∧
    (∀ g, grantId = some g → ∃ grant u v, parentGrant db now realm grantId = some grant ∧
      db.records.get? ⟨realm, "Grant", g⟩ = some grant ∧ grant.payload.accountId = some u.text ∧
      grant.accountSecurityVersion = some v ∧ enabledVersion (db.users realm u) = some v) := by
  have hparent : ∀ u v, parentAccount db now realm grantId = some (u, v) →
      ∃ grant, parentGrant db now realm grantId = some grant ∧
        grant.payload.accountId = some u.text ∧ grant.accountSecurityVersion = some v ∧
        enabledVersion (db.users realm u) = some v := by
    intro u v hp
    obtain ⟨grant, hgrant, hp⟩ := Option.bind_eq_some_iff.mp hp
    obtain ⟨u', hu, hp⟩ := Option.bind_eq_some_iff.mp hp
    obtain ⟨text, htext, hu⟩ := Option.bind_eq_some_iff.mp hu
    obtain ⟨user, huser, heq⟩ := Option.map_eq_some_iff.mp hp
    obtain ⟨huser, hversion⟩ := Option.filter_eq_some_iff.mp huser
    cases heq
    refine ⟨grant, hgrant, by rw [htext, Uuid.ofText?_eq_some.mp hu], by simpa using hversion, ?_⟩
    exact Option.map_eq_some_iff.mpr ⟨user, huser, rfl⟩
  unfold security at h
  dsimp only at h
  split at h
  · rename_i hvalid
    obtain ⟨hacc, hpar, -⟩ := hvalid
    simp only [Option.some.injEq, Prod.mk.injEq] at h
    obtain ⟨rfl, rfl⟩ := h
    have hgiven : ∀ a, accountId = some a → ∃ u user, Uuid.parse a = some u ∧
        db.enabledUser realm u = some user := by
      rintro a rfl
      simp only [reduceCtorEq, false_or] at hacc
      obtain ⟨user, huser⟩ := Option.isSome_iff_exists.mp hacc
      obtain ⟨u, hu, huser⟩ := Option.bind_eq_some_iff.mp (show (Uuid.parse a).bind _ = _ from huser)
      exact ⟨u, user, hu, huser⟩
    refine ⟨fun u hu => ?_, fun a ha => ?_, fun g hg => ?_⟩
    · obtain ⟨text, htext, hparse⟩ := Option.bind_eq_some_iff.mp hu
      obtain ⟨u', howner, rfl⟩ := Option.map_eq_some_iff.mp htext
      obtain rfl : u' = u := Option.some.inj ((Uuid.parse_text u').symm.trans hparse)
      cases hid : accountId with
      | none =>
        simp only [hid, Option.bind_none, Option.none_or, account, Option.map_none] at howner ⊢
        obtain ⟨⟨u, v⟩, hpa, rfl⟩ := Option.map_eq_some_iff.mp howner
        obtain ⟨-, -, -, -, hv⟩ := hparent _ v hpa
        exact ⟨v, by rw [hpa]; rfl, hv⟩
      | some a =>
        obtain ⟨u, user, hgivenParse, huser⟩ := hgiven a hid
        simp only [hid, Option.bind_some, hgivenParse, Option.some_or, Option.some.injEq] at howner
        subst howner
        exact ⟨user.securityVersion, by simp [account, hgivenParse, huser],
          Option.map_eq_some_iff.mpr ⟨user, huser, rfl⟩⟩
    · obtain ⟨u, -, hparse, -⟩ := hgiven a ha
      exact ⟨u, hparse, by simp [ha, hparse]⟩
    · rw [hg] at hpar hparent ⊢
      simp only [reduceCtorEq, false_or] at hpar
      obtain ⟨⟨u, v⟩, hpa⟩ := Option.isSome_iff_exists.mp hpar
      obtain ⟨grant, hgrant, hacc', hver, hv⟩ := hparent u v hpa
      exact ⟨grant, u, v, hgrant, (Option.filter_eq_some_iff.mp hgrant).1, hacc', hver, hv⟩
  · cases h

/-- The account that a payload gets is in its canonical spelling. -/
theorem security_owner {db : Db} {now : Instant} {realm : String} {accountId grantId : Option String}
    {version : Option Nat} {owner : Option String}
    (h : security db now realm accountId grantId = some (version, owner)) :
    ∀ a, owner.or accountId = some a → ∃ u : Uuid, a = u.text := by
  have hgiven := (security_eq_some h).2.1
  unfold security at h
  dsimp only at h
  split at h
  · simp only [Option.some.injEq, Prod.mk.injEq] at h
    obtain ⟨-, howner⟩ := h
    intro a ha
    rcases Option.or_eq_some_iff.mp ha with ha | ⟨hnone, ha⟩
    · rw [← howner] at ha
      obtain ⟨u, -, rfl⟩ := Option.map_eq_some_iff.mp ha
      exact ⟨u, rfl⟩
    · obtain ⟨u, -, hu⟩ := hgiven a ha
      rw [hnone] at hu
      cases hu
  · cases h

/-- A row `k` collides with the payload for `key` in one of the unique indexes on
`(realm_name, model, user_code)` and `(realm_name, model, uid)`. -/
def collides (key : Key) (payload : Payload) (k : Key) (row : OidcRow) : Bool :=
  k.realm = key.realm && k.model = key.model && k.id != key.id &&
    ((payload.userCode.isSome && row.userCode == payload.userCode) ||
      (payload.uid.isSome && row.uid == payload.uid))

def duplicates (db : Db) (key : Key) (payload : Payload) : Bool :=
  db.records.entries.any fun x => collides key payload x.1 x.2

/-- The row that the statement proposes for insertion, `EXCLUDED` in its conflict branch. -/
def proposedRow (now : Instant) (payload : Payload) (expiresIn consumed : Option Int)
    (version : Option Nat) (accountId : Option String) (saved : Nat) : OidcRow where
  payload := { payload with consumed := none, accountId := accountId.or payload.accountId }
  expiresAt := expiresIn.map (now.ms + ·)
  consumedAt := consumed
  grantId := payload.grantId
  userCode := payload.userCode
  uid := payload.uid
  accountSecurityVersion := version
  saved := saved

/-- The statement: the number of rows it returns and the database after it. -/
def upsertStatement (db : Db) (now : Instant) (key : Key) (payload : Payload)
    (expiresIn consumed : Option Int) (saved : Nat) : Except AdapterError (Nat × Db) :=
  match security db now key.realm payload.accountId payload.grantId with
  | none => .ok (0, db)
  | some (version, accountId) =>
    let row := proposedRow now payload expiresIn consumed version accountId saved
    match db.records.get? key with
    | none =>
      if duplicates db key payload then .error (.database "23505")
      else .ok (1, { db with records := db.records.set key row })
    | some old =>
      if key.model = "ReplayDetection" then .ok (0, db)
      else if duplicates db key payload then .error (.database "23505")
      else .ok (1, { db with
        records := db.records.set key { row with consumedAt := old.consumedAt.or consumed } })

/-- `PostgresAdapter.upsert`. -/
def upsert (db : Db) (now : Instant) (key : Key) (payload : Payload) (expiresIn : Option Int)
    (saved : Nat) : Except AdapterError Db := do
  let consumed ← prepare key.id payload expiresIn
  let (rowCount, db') ← upsertStatement db now key payload expiresIn consumed saved
  if (payload.accountId.isSome ∨ payload.grantId.isSome) ∧ rowCount ≠ 1 then
    throw (.invalidGrant "account or parent grant is unavailable or stale")
  if key.model = "ReplayDetection" ∧ rowCount ≠ 1 then
    throw (.invalidRequest "replayed assertion or proof detected")
  return db'

/-- What the row of a successful `upsert` is: its security columns come from `security`, a
row that was there keeps its consumption time, for `ReplayDetection` there was none, and
the unique indexes hold. -/
structure Written (db : Db) (now : Instant) (key : Key) (payload : Payload) (saved : Nat)
    (row : OidcRow) : Prop where
  security : ∃ owner, security db now key.realm payload.accountId payload.grantId =
    some (row.accountSecurityVersion, owner) ∧ row.payload.accountId = owner.or payload.accountId
  replay : key.model = "ReplayDetection" → db.records.get? key = none
  consumed : ∀ {old}, db.records.get? key = some old → old.consumedAt.isSome →
    row.consumedAt = old.consumedAt
  grantId : row.grantId = payload.grantId
  userCode : row.userCode = payload.userCode
  uid : row.uid = payload.uid
  unique : duplicates db key payload = false
  saved : row.saved = saved

/-- A successful `upsert` has written exactly one row. -/
theorem upsert_eq_ok {db db' : Db} {now : Instant} {key : Key} {payload : Payload}
    {expiresIn : Option Int} {saved : Nat}
    (h : upsert db now key payload expiresIn saved = .ok db') :
    ∃ row, Written db now key payload saved row ∧
      db' = { db with records := db.records.set key row } := by
  unfold upsert at h
  obtain ⟨consumed, -, h⟩ := bind_eq_ok.mp h
  obtain ⟨⟨rowCount, db1⟩, hs, h⟩ := bind_eq_ok.mp h
  simp only [ne_eq] at h
  split at h
  · cases h
  · rename_i hbound
    split at h
    · cases h
    · rename_i hreplay
      cases h
      unfold upsertStatement at hs
      split at hs
      · rename_i hsec
        cases hs
        -- without a binding the statement is always valid
        exact absurd hsec (by simp_all [Postgres.security])
      · rename_i version accountId hsec
        split at hs
        · rename_i hnone
          split at hs
          · cases hs
          · rename_i hunique
            cases hs
            exact ⟨_, ⟨⟨accountId, hsec, rfl⟩, fun _ => hnone, by simp [hnone], rfl, rfl, rfl,
              by simpa using hunique, rfl⟩, rfl⟩
        · rename_i old hold
          split at hs
          · rename_i hmodel
            cases hs
            exact absurd ⟨hmodel, by simp⟩ hreplay
          · rename_i hmodel
            split at hs
            · cases hs
            · rename_i hunique
              cases hs
              refine ⟨_, ⟨⟨accountId, hsec, rfl⟩, fun hm => absurd hm hmodel, ?_, rfl, rfl, rfl,
                by simpa using hunique, rfl⟩, rfl⟩
              intro old' hold' hc
              obtain rfl : old = old' := Option.some.inj (hold.symm.trans hold')
              exact Option.or_of_isSome hc

/-! ## Queries, consumption and deletion -/

/-- The condition of `find*` on the account: the version column is `NULL`, or the user
exists, is enabled and has that version. -/
def accountCurrent (db : Db) (realm : String) (row : OidcRow) : Bool :=
  match row.accountSecurityVersion with
  | none => true
  | some v =>
    match (row.payload.accountId.bind Uuid.parse).bind (db.enabledUser realm) with
    | none => false
    | some user => user.securityVersion = v

def holds (c : Column) (key : Key) (row : OidcRow) : Bool :=
  match c with
  | .id v => key.id = v
  | .userCode v => row.userCode = some v
  | .uid v => row.uid = some v

/-- `find`, `findByUserCode` and `findByUid`: the row that the query selects. -/
def findBy (db : Db) (now : Instant) (realm model : String) (c : Column) :
    Option (Key × OidcRow) :=
  db.records.findFirst? fun key row =>
    key.realm = realm && key.model = model && holds c key row && row.live now &&
      accountCurrent db realm row

theorem findBy_eq_some {db : Db} {now : Instant} {realm model : String} {c : Column}
    {key : Key} {row : OidcRow} (h : findBy db now realm model c = some (key, row)) :
    db.records.get? key = some row ∧ key.realm = realm ∧ key.model = model ∧
      holds c key row = true ∧ row.live now = true ∧ accountCurrent db realm row = true := by
  obtain ⟨hget, hp⟩ := OrderedMap.get?_of_findFirst? h
  simp only [Bool.and_eq_true, decide_eq_true_eq] at hp
  obtain ⟨⟨⟨⟨hrealm, hmodel⟩, hcol⟩, hlive⟩, hcur⟩ := hp
  exact ⟨hget, hrealm, hmodel, hcol, hlive, hcur⟩

/-- The `UPDATE … SET consumed_at=CURRENT_TIMESTAMP … WHERE consumed_at IS NULL` of
`consume` and `claimInitialAccessToken`: the database if a row was updated. -/
def consumeStatement (db : Db) (now : Instant) (key : Key) : Option Db :=
  match db.records.get? key with
  | none => none
  | some row =>
    if row.consumedAt = none ∧ row.live now then
      some { db with records := db.records.set key { row with consumedAt := some now.ms } }
    else none

theorem consumeStatement_eq_some {db db' : Db} {now : Instant} {key : Key}
    (h : consumeStatement db now key = some db') :
    ∃ row, db.records.get? key = some row ∧ row.consumedAt = none ∧ row.live now = true ∧
      db' = { db with records := db.records.set key { row with consumedAt := some now.ms } } := by
  unfold consumeStatement at h
  split at h
  · cases h
  · rename_i row hrow
    split at h
    · rename_i hc
      exact ⟨row, hrow, hc.1, hc.2, (Option.some.inj h).symm⟩
    · cases h

/-- `PostgresAdapter.consume`. -/
def consume (db : Db) (now : Instant) (key : Key) : Except AdapterError Db :=
  match consumeStatement db now key with
  | some db' => .ok db'
  | none => .error (alreadyConsumed key.model)

/-- `claimInitialAccessToken` of the data layer. -/
def claimInitialAccessToken (db : Db) (now : Instant) (realm id : String) : Bool × Db :=
  match consumeStatement db now ⟨realm, "InitialAccessToken", id⟩ with
  | some db' => (true, db')
  | none => (false, db)

def destroy (db : Db) (key : Key) : Db := { db with records := db.records.erase key }

def revokeByGrantId (db : Db) (realm model grantId : String) : Db :=
  { db with records := db.records.filter fun key row =>
      !(key.realm = realm && key.model = model && row.grantId = some grantId) }

/-- The `Grant` rows of an account, the expression `account_grants`. -/
def accountGrant (db : Db) (realm accountId grantId : String) : Bool :=
  match db.records.get? ⟨realm, "Grant", grantId⟩ with
  | none => false
  | some grant => grant.payload.accountId = some accountId

/-- The expression `doomed` of `revokeAccountSql`. -/
def doomed (db : Db) (realm accountId : String) (key : Key) (row : OidcRow) : Bool :=
  key.realm = realm &&
    (row.payload.accountId = some accountId ||
      match row.grantId with
      | none => false
      | some g => accountGrant db realm accountId g)

/-- `revokeAccountSql`. -/
def revokeAccount (db : Db) (realm accountId : String) : Db :=
  { db with records := db.records.filter fun key row => !doomed db realm accountId key row }

end AuthMe.Adapters.Postgres

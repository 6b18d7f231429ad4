import AuthMe.Adapters.PostgresRun
import AuthMe.Adapters.Shelf
import AuthMe.Transition.Refine

/-!
# The PostgreSQL adapter as a shelf

One call of `src/src/adapters/postgres.js` after the other, and the transactions of `src/src/db.js`
from `BEGIN` to `COMMIT`. As no other transaction is open, nothing waits. The shelf has the rows, each
with the payload that `restorePayload` makes of it.
-/

namespace AuthMe.Adapters.Postgres

/-! ## Calls from their start to their end -/

/-- `begun` ends no call. -/
def Outcome.answer : Outcome → Answer
  | .done | .begun | .committed => .done
  | .failed _ => .refused
  | .claimed success => .claimed success
  | .found result => .found (result.map fun x => restorePayload x.2)
  | .notFound => .notFound

/-- A transaction with its statements, from its start on. -/
def transaction (s : State) (now : Instant) (kind : Kind) (realm accountId : String)
    (steps : List TxnStep) : Option (State × Answer) :=
  (step s (now, .start kind realm accountId)).bind fun x =>
    if x.2 = .begun then
      (steps.foldlM (fun t st => (step t (now, .txn s.tick st)).map (·.1)) x.1).map fun t => (t, .done)
    else some (x.1, x.2.answer)

def mutateSteps (enabled : Option Bool) : List TxnStep :=
  enabled.toList.map .enable ++ [.bump, .revoke, .commit]

def deleteSteps : List TxnStep := [.revoke, .deleteUser, .commit]

/-- The statement of a call that is no transaction. -/
def statementOf : Request → Option Statement
  | .upsert key p expiresIn => some (.upsert key p expiresIn)
  | .find realm model c => some (.find realm model c)
  | .consume key => some (.consume key)
  | .claimInitialAccessToken realm id => some (.claimInitialAccessToken realm id)
  | .destroy key => some (.destroy key)
  | .revokeByGrantId realm model g => some (.revokeByGrantId realm model g)
  | .setUser realm u row => some (.setUser realm u row)
  | .mutateAccountSecurity _ _ _ | .deleteAccount _ _ => none

def performCall (s : State) (c : Instant × Request) : Option (State × Answer) :=
  match c.2 with
  | .mutateAccountSecurity realm u enabled =>
    transaction s c.1 .mutate realm u.text (mutateSteps enabled)
  | .deleteAccount realm u => transaction s c.1 .delete realm u.text deleteSteps
  | r => (statementOf r).bind fun st => (step s (c.1, .run st)).map fun x => (x.1, x.2.answer)

/-! ## What a database shows -/

def OidcRow.artifact (row : OidcRow) : Artifact :=
  ⟨restorePayload row, row.expiresAt, row.accountSecurityVersion⟩

/-- The columns are those of the payload, which has no consumption in it. -/
structure Columns (row : OidcRow) : Prop where
  grantId : row.grantId = row.payload.grantId
  userCode : row.userCode = row.payload.userCode
  uid : row.uid = row.payload.uid
  consumed : row.payload.consumed = none

structure Shows (db : Db) (sh : Shelf) : Prop where
  users : db.users = sh.users
  record : ∀ key, (db.records.get? key).map OidcRow.artifact = sh.artifacts.get? key
  columns : ∀ {key row}, db.records.get? key = some row → Columns row

/-- The state and the shelf belong together. -/
structure Rep (s : State) (sh : Shelf) : Prop where
  free : s.txns = .empty
  shelf : sh.Wf
  shows : Shows s.db sh

theorem rep_initial (users : String → Uuid → Slot) : Rep (.initial users) ⟨users, .empty⟩ where
  free := rfl
  shelf := Shelf.wf_empty users
  shows := ⟨rfl, fun _ => rfl, nofun⟩

variable {db : Db} {s : State} {sh : Shelf} {now : Instant} {realm : String}

theorem Columns.restorePayload_eq {row : OidcRow} (h : Columns row) :
    restorePayload row = { row.payload with consumed := row.consumedAt.map (· / 1000) } := by
  obtain ⟨⟨accountId, grantId, userCode, uid, consumed, rest⟩, expiresAt, consumedAt⟩ := row
  obtain rfl : consumed = none := h.consumed
  cases consumedAt <;> rfl

theorem Columns.payload_eq {row : OidcRow} (h : Columns row) :
    row.artifact.payload = { row.payload with consumed := row.consumedAt.map (· / 1000) } :=
  h.restorePayload_eq

namespace Shows

theorem get? (h : Shows db sh) {key : Key} {a : Artifact} :
    sh.artifacts.get? key = some a ↔
      ∃ row, db.records.get? key = some row ∧ row.artifact = a := by
  rw [← h.record key, Option.map_eq_some_iff]

theorem get?_eq_none (h : Shows db sh) {key : Key} :
    sh.artifacts.get? key = none ↔ db.records.get? key = none := by
  rw [← h.record key, Option.map_eq_none_iff]

theorem set (h : Shows db sh) (key : Key) {row : OidcRow} (hcolumns : Columns row) :
    Shows { db with records := db.records.set key row } (sh.put key row.artifact) := by
  refine ⟨h.users, ?_, ?_⟩
  · intro k
    simp only [OrderedMap.get?_set, Shelf.get?_put, ← h.record k]
    split <;> rfl
  · intro k row' hget
    simp only [OrderedMap.get?_set] at hget
    split at hget
    · cases hget
      exact hcolumns
    · exact h.columns hget

theorem filter (h : Shows db sh) {p : Key → OidcRow → Bool} {q : Key → Artifact → Bool}
    (hpq : ∀ {key row}, db.records.get? key = some row → p key row = q key row.artifact) :
    Shows { db with records := db.records.filter p } (sh.keep q) := by
  refine ⟨h.users, ?_, ?_⟩
  · intro key
    simp only [OrderedMap.get?_filter, Shelf.get?_keep, ← h.record key]
    cases hget : db.records.get? key with
    | none => rfl
    | some row =>
      rw [Option.map_some, Option.filter_some, Option.filter_some, hpq hget]
      split <;> rfl
  · intro key row hget
    simp only [OrderedMap.get?_filter] at hget
    exact h.columns (Option.filter_eq_some_iff.mp hget).1

theorem withUser (h : Shows db sh) (realm : String) (u : Uuid) (slot : Slot) :
    Shows (db.withUser realm u slot) (sh.withUser realm u slot) := by
  refine ⟨?_, h.record, h.columns⟩
  simp only [Db.withUser, Shelf.withUser, h.users]

/-! ## `upsert` -/

theorem version (h : Shows db sh) (realm : String) (u : Uuid) :
    (db.enabledUser realm u).map (·.securityVersion) = sh.version realm u.text := by
  simp only [Db.enabledUser, h.users, Shelf.version, Uuid.ofText?_eq_some.mpr rfl, Option.bind_some]
  rfl

theorem parentGrant (h : Shows db sh) (g : String) :
    (Postgres.parentGrant db now realm (some g)).map OidcRow.artifact =
      sh.live? now ⟨realm, "Grant", g⟩ := by
  simp only [Postgres.parentGrant, Option.bind_some, Shelf.live?, ← h.record]
  cases db.records.get? ⟨realm, "Grant", g⟩ with
  | none => rfl
  | some row =>
    rw [Option.map_some, Option.filter_some, Option.filter_some]
    have hlive : row.artifact.live now = row.live now := rfl
    rw [hlive]
    split <;> rfl

end Shows

/-! ### What is not refused -/

theorem checkIdentifier_eq_ok {value : String} (name : String) (h : Shelf.proper value = true) :
    checkIdentifier value name = .ok () := by
  obtain ⟨hne, htext⟩ := Shelf.proper_iff.mp h
  rw [checkIdentifier, requiredIdentifier, if_neg hne, htext]
  rfl

theorem checkNames_eq_ok {realm model : String} (hrealm : Shelf.proper realm = true)
    (hmodel : Shelf.proper model = true) : checkNames realm model = .ok () := by
  obtain ⟨hrealm, hrealmText⟩ := Shelf.proper_iff.mp hrealm
  obtain ⟨hmodel, hmodelText⟩ := Shelf.proper_iff.mp hmodel
  rw [checkNames, requiredIdentifier, requiredIdentifier, if_neg hrealm, if_neg hmodel, hrealmText,
    hmodelText]
  rfl

theorem checkColumn_eq_ok {c : Column} (h : Shelf.properColumn c = true) : checkColumn c = .ok () := by
  cases c with
  | id v | userCode v | uid v => exact checkIdentifier_eq_ok _ h

theorem checkAccount_eq_ok (h : Shelf.proper realm = true) (u : Uuid) :
    checkAccount realm u.text = .ok u := by
  rw [checkAccount, (Shelf.proper_iff.mp h).2, asText_text, Uuid.parse_text]
  rfl

theorem checkInput_eq_ok {id : String} {p : Payload} {expiresIn : Option Int} (hid : id ≠ "")
    (hp : Shelf.properPayload p expiresIn = true) :
    checkInput id p expiresIn = .ok (p.consumed.map (· * 1000)) := by
  simp only [Shelf.properPayload, Bool.and_eq_true] at hp
  obtain ⟨⟨⟨⟨⟨⟨hgrant, hcode⟩, huid⟩, haccount⟩, -⟩, hconsumed⟩, hexpires⟩ := hp
  have hoptional : ∀ {o : Option String} {name : String}, (∀ v, o = some v → v ≠ "") →
      optionalIdentifier o name = .ok () := by
    rintro (_ | v) name ho
    · rfl
    · simp only [optionalIdentifier, requiredIdentifier, if_neg (ho v rfl)]
  have hfilled : ∀ {o : Option String}, o.all Shelf.proper = true → ∀ v, o = some v → v ≠ "" := by
    rintro _ ho v rfl
    exact (Shelf.proper_iff.mp ho).1
  have hnamed : ∀ a, p.accountId = some a → a ≠ "" := by
    rintro a ha rfl
    rw [ha] at haccount
    exact absurd haccount (by decide)
  have huuid : requireUuid p.accountId = .ok () := by
    rcases Option.eq_none_or_eq_some p.accountId with hnone | ⟨a, ha⟩
    · rw [hnone]
      rfl
    · rw [ha] at haccount ⊢
      obtain ⟨u, hu⟩ := Option.isSome_iff_exists.mp haccount
      obtain rfl := Uuid.ofText?_eq_some.mp hu
      simp only [requireUuid, Uuid.parse_text, Option.isSome_some, if_true]
  have httl : ttlSeconds expiresIn = .ok () := by
    cases expiresIn with
    | none => rfl
    | some t =>
      have ht : ¬t < 0 := by simpa using hexpires
      simp only [ttlSeconds, if_neg ht]
  have hat : consumedAt p = .ok (p.consumed.map (· * 1000)) := by
    unfold consumedAt
    rcases Option.eq_none_or_eq_some p.consumed with hnone | ⟨c, hc⟩
    · rw [hnone]
      rfl
    · simp only [hc, decide_eq_true_eq] at hconsumed
      simp only [hc, Option.map_some, if_neg (show ¬c < 0 by omega)]
  simp only [checkInput, requiredIdentifier, if_neg hid, httl, hat, hoptional (hfilled hgrant),
    hoptional (hfilled hcode), hoptional (hfilled huid), hoptional hnamed, huuid, bind, Except.bind,
    pure, Except.pure]

theorem asPayload_eq_ok {p : Payload} {expiresIn : Option Int}
    (hp : Shelf.properPayload p expiresIn = true) : asPayload p = .ok () := by
  simp only [Shelf.properPayload, Bool.and_eq_true, decide_eq_true_eq] at hp
  obtain ⟨⟨⟨⟨⟨⟨hgrant, hcode⟩, huid⟩, haccount⟩, hrest⟩, -⟩, -⟩ := hp
  have hmember : ∀ {o : Option String}, o.all Shelf.proper = true → asMember o = .ok () := by
    intro o ho
    refine asMember_eq_ok.mpr ?_
    rintro v rfl
    exact asText_eq_ok.mp (Shelf.proper_iff.mp ho).2
  have hnamed : asMember p.accountId = .ok () := by
    refine asMember_eq_ok.mpr fun a ha => asText_eq_ok.mp ?_
    rw [ha] at haccount
    obtain ⟨u, hu⟩ := Option.isSome_iff_exists.mp haccount
    obtain rfl := Uuid.ofText?_eq_some.mp hu
    exact asText_text u
  rw [asPayload, hmember hgrant, hmember hcode, hmember huid, hnamed, hrest]
  rfl

theorem prepare_eq_ok {id : String} {p : Payload} {expiresIn : Option Int}
    (hid : Shelf.proper id = true) (hp : Shelf.properPayload p expiresIn = true) :
    prepare id p expiresIn = .ok (p.consumed.map (· * 1000)) := by
  obtain ⟨hne, htext⟩ := Shelf.proper_iff.mp hid
  rw [prepare, checkInput_eq_ok hne hp, htext, asPayload_eq_ok hp]
  rfl

theorem check_upsert_eq_ok {key : Key} {p : Payload} {expiresIn : Option Int}
    (hkey : Shelf.properKey key = true) (hp : Shelf.properPayload p expiresIn = true) :
    Statement.check (.upsert key p expiresIn) = .ok () := by
  simp only [Shelf.properKey, Bool.and_eq_true] at hkey
  rw [Statement.check, checkNames_eq_ok hkey.1.1 hkey.1.2, prepare_eq_ok hkey.2 hp]
  rfl

/-- Nothing of an admitted call is refused before its statement runs. -/
theorem check_eq_ok {r : Request} {st : Statement} (hst : statementOf r = some st)
    (hadmits : sh.admits now r = true) : st.check = .ok () := by
  cases r with
  | upsert key p expiresIn =>
    cases hst
    simp only [Shelf.admits, Bool.and_eq_true] at hadmits
    exact check_upsert_eq_ok hadmits.1.1 hadmits.1.2
  | find realm model c =>
    cases hst
    simp only [Shelf.admits, Bool.and_eq_true] at hadmits
    rw [Statement.check, checkNames_eq_ok hadmits.1.1 hadmits.1.2, checkColumn_eq_ok hadmits.2]
    rfl
  | consume key | destroy key =>
    cases hst
    simp only [Shelf.admits, Shelf.properKey, Bool.and_eq_true] at hadmits
    rw [Statement.check, checkNames_eq_ok hadmits.1.1 hadmits.1.2, checkIdentifier_eq_ok _ hadmits.2]
    rfl
  | claimInitialAccessToken realm id =>
    cases hst
    simp only [Shelf.admits, Bool.and_eq_true] at hadmits
    rw [Statement.check, (Shelf.proper_iff.mp hadmits.1).2, (Shelf.proper_iff.mp hadmits.2).2]
    rfl
  | revokeByGrantId realm model g =>
    cases hst
    simp only [Shelf.admits, Bool.and_eq_true] at hadmits
    rw [Statement.check, checkNames_eq_ok hadmits.1.1 hadmits.1.2, checkIdentifier_eq_ok _ hadmits.2]
    rfl
  | setUser realm u row =>
    cases hst
    rfl
  | mutateAccountSecurity realm u enabled => cases hst
  | deleteAccount realm u => cases hst

namespace Shows

/-- The expression `parent_account`, by what the shelf shows of the Grant. -/
theorem parentAccount_eq (h : Shows db sh) (g : String) :
    parentAccount db now realm (some g) =
      (sh.live? now ⟨realm, "Grant", g⟩).bind fun grant =>
        (grant.payload.accountId.bind Uuid.ofText?).bind fun u =>
          ((sh.version realm u.text).filter fun v => grant.securityVersion = some v).map fun v =>
            (u, v) := by
  rw [← h.parentGrant]
  unfold parentAccount
  cases hgrant : Postgres.parentGrant db now realm (some g) with
  | none => rfl
  | some row =>
    have hcolumns := h.columns (Option.filter_eq_some_iff.mp hgrant).1
    simp only [Option.bind_some, Option.map_some, hcolumns.payload_eq]
    congr 1
    funext u
    rw [← h.version]
    cases db.enabledUser realm u with
    | none => rfl
    | some user =>
      simp only [Option.map_some, Option.filter_some, OidcRow.artifact]
      by_cases hv : row.accountSecurityVersion = some user.securityVersion
      · simp [hv]
      · simp [hv]

/-- The expression `security` is the binding of the artifact. -/
theorem security_eq (realm : String) (now : Instant) (h : Shows db sh) (hshelf : sh.Wf) {p : Payload}
    (hcanonical : Shelf.canonical p.accountId = true) :
    security db now realm p.accountId p.grantId =
      (sh.binding now realm p).map fun owner => (owner.map (·.2), owner.map (·.1)) := by
  have haccount : ∀ u : Uuid, (account db realm (some u.text)).map (·.securityVersion) =
      sh.version realm u.text := by
    intro u
    rw [← h.version]
    simp only [account, Option.bind_some, Uuid.parse_text]
  obtain ⟨accountId, grantId, userCode, uid, consumed, rest⟩ := p
  cases grantId with
  | none =>
    cases accountId with
    | none => rfl
    | some a =>
      obtain ⟨u, hu⟩ := Option.isSome_iff_exists.mp hcanonical
      obtain rfl := Uuid.ofText?_eq_some.mp hu
      simp only [security, Shelf.binding, ← haccount u]
      cases account db realm (some u.text) with
      | none => simp
      | some row => simp [parentAccount, Postgres.parentGrant]
  | some g =>
    simp only [security, Shelf.binding, h.parentAccount_eq]
    cases hlive : sh.live? now ⟨realm, "Grant", g⟩ with
    | none => simp
    | some grant =>
      have howner := hshelf.account (Option.filter_eq_some_iff.mp hlive).1
      cases hgrant : grant.payload.accountId with
      | none => simp [hgrant]
      | some a =>
        rw [hgrant] at howner
        obtain ⟨u, hu⟩ := Option.isSome_iff_exists.mp howner
        obtain rfl := Uuid.ofText?_eq_some.mp hu
        cases hversion : sh.version realm u.text with
        | none => simp [hgrant, hu, hversion]
        | some v =>
          by_cases hstale : grant.securityVersion = some v
          · cases accountId with
            | none =>
              simp [hgrant, hu, hversion, hstale, account, Option.filter_some]
            | some a' =>
              obtain ⟨u', hu'⟩ := Option.isSome_iff_exists.mp hcanonical
              obtain rfl := Uuid.ofText?_eq_some.mp hu'
              by_cases hsame : u' = u
              · subst hsame
                have hown := haccount u'
                rw [hversion] at hown
                obtain ⟨user, huser, rfl⟩ := Option.map_eq_some_iff.mp hown
                simp [hgrant, hu, hversion, hstale, huser, Option.filter_some]
              · have htext : u'.text ≠ u.text := fun heq =>
                  hsame (Option.some.inj (hu'.symm.trans (heq ▸ hu)))
                have hparent : u ≠ u' := fun heq => hsame heq.symm
                simp [hgrant, hu, hversion, hstale, htext, hparent, Option.filter_some]
          · simp [hgrant, hu, hversion, hstale, Option.filter_some]

/-- The unique indexes refuse what another artifact has. -/
theorem duplicates_eq (h : Shows db sh) (key : Key) (p : Payload) :
    duplicates db key p = sh.taken key p := by
  have hrow : ∀ {k row}, db.records.get? k = some row → collides key p k row =
      (k.realm = key.realm && k.model = key.model && k.id != key.id &&
        Shelf.shares p row.artifact.payload) := by
    intro k row hget
    rw [(h.columns hget).payload_eq]
    simp only [collides, Shelf.shares, (h.columns hget).userCode, (h.columns hget).uid]
  rw [Bool.eq_iff_iff, duplicates, Shelf.taken, List.any_eq_true, List.any_eq_true]
  constructor
  · rintro ⟨⟨k, row⟩, hmem, hcollides⟩
    have hget := OrderedMap.mem_entries_iff.mp hmem
    rw [hrow hget] at hcollides
    exact ⟨(k, row.artifact), OrderedMap.mem_entries_iff.mpr (h.get?.mpr ⟨row, hget, rfl⟩), hcollides⟩
  · rintro ⟨⟨k, a⟩, hmem, hshares⟩
    obtain ⟨row, hget, rfl⟩ := h.get?.mp (OrderedMap.mem_entries_iff.mp hmem)
    refine ⟨(k, row), OrderedMap.mem_entries_iff.mpr hget, ?_⟩
    rw [hrow hget]
    exact hshares

end Shows

/-- The row of an accepted call shows what the shelf saves. -/
theorem proposedRow_artifact (now : Instant) (key : Key) (expiresIn old : Option Int) {p : Payload}
    {owner : Option (String × Nat)} (hbinding : sh.binding now realm p = some owner) (saved : Nat)
    (hold : old.map (· / 1000) = (sh.artifacts.get? key).bind (·.payload.consumed)) :
    let row := { proposedRow now p expiresIn (p.consumed.map (· * 1000)) (owner.map (·.2))
      (owner.map (·.1)) saved with consumedAt := old.or (p.consumed.map (· * 1000)) }
    Columns row ∧ row.artifact = sh.bound now key p expiresIn owner := by
  intro row
  have hcolumns : Columns row := ⟨rfl, rfl, rfl, rfl⟩
  refine ⟨hcolumns, ?_⟩
  have haccount : (owner.map (·.1)).or p.accountId = owner.map (·.1) := by
    cases owner with
    | none => exact Shelf.binding_unowned hbinding
    | some o => rfl
  have hconsumed : (old.or (p.consumed.map (· * 1000))).map (· / 1000) =
      ((sh.artifacts.get? key).bind (·.payload.consumed)).or p.consumed := by
    rw [← hold]
    cases old with
    | some ms => rfl
    | none =>
      cases p.consumed with
      | none => rfl
      | some c => simp
  have hpayload : row.artifact.payload = (sh.bound now key p expiresIn owner).payload := by
    rw [hcolumns.payload_eq]
    simp only [row, proposedRow, Shelf.bound, haccount, hconsumed]
  exact Artifact.ext hpayload rfl rfl

/-- What a statement by itself answers and leaves. -/
def Answers (s : State) (now : Instant) (st : Statement) (a : Answer) (sh : Shelf) : Prop :=
  ∃ db o, execute s now st = some (db, o) ∧ o.answer = a ∧ Shows db sh

theorem Rep.userLocked (h : Rep s sh) (realm : String) (u : Uuid) : s.userLocked realm u = false := by
  simp only [State.userLocked, h.free]
  rfl

theorem Rep.rowLocked (h : Rep s sh) (key : Key) : s.rowLocked key = false := by
  simp only [State.rowLocked, h.free]
  rfl

theorem Rep.upsertBlocked (h : Rep s sh) (key : Key) (p : Payload) :
    s.upsertBlocked now key p = false := by
  have haccount : s.accountBlocked key.realm p.accountId = false := by
    unfold State.accountBlocked
    split
    · rfl
    · rw [h.userLocked, Bool.and_false]
  have hparent : s.parentBlocked now key.realm p.grantId = false := by
    unfold State.parentBlocked
    rw [Bool.or_eq_false_iff]
    refine ⟨?_, ?_⟩
    · split
      · rfl
      · rw [h.rowLocked, Bool.and_false]
    · split
      · rfl
      · exact h.userLocked _ _
  have htarget : s.targetBlocked now key p = false := by
    unfold State.targetBlocked
    rw [Bool.and_eq_false_iff]
    refine .inr (List.any_eq_false.mpr fun x _ => ?_)
    simp [h.rowLocked]
  simp only [State.upsertBlocked, haccount, hparent, htarget, Bool.or_self]

/-- What the number of rows that the statement returns means. -/
theorem upsert_of_statement {key : Key} {p : Payload} {expiresIn consumed : Option Int}
    {saved n : Nat} {db' : Db} (hinput : prepare key.id p expiresIn = .ok consumed)
    (hstatement : upsertStatement db now key p expiresIn consumed saved = .ok (n, db')) :
    (n = 1 → upsert db now key p expiresIn saved = .ok db') ∧
    (n ≠ 1 → p.accountId.isSome = true ∨ p.grantId.isSome = true ∨ key.model = "ReplayDetection" →
      ∃ e, upsert db now key p expiresIn saved = .error e) := by
  simp only [upsert, hinput, hstatement, bind, Except.bind]
  constructor
  · rintro rfl
    simp [pure, Except.pure]
  · intro hn hor
    by_cases hbound : p.accountId.isSome = true ∨ p.grantId.isSome = true
    · rw [if_pos ⟨hbound, hn⟩]
      exact ⟨_, rfl⟩
    · rw [if_neg fun hc => hbound hc.1]
      rw [not_or] at hbound
      rw [if_pos ⟨(hor.resolve_left hbound.1).resolve_left hbound.2, hn⟩]
      exact ⟨_, rfl⟩

/-- The statement refuses what has no binding, a key of `ReplayDetection` that is there, and what the
unique indexes refuse. It saves the rest. -/
theorem upsert_answers (now : Instant) (expiresIn : Option Int) (h : Rep s sh) {key : Key}
    {p : Payload} (hkey : Shelf.properKey key = true)
    (hp : Shelf.properPayload p expiresIn = true) :
    match sh.binding now key.realm p with
    | none => Answers s now (.upsert key p expiresIn) .refused sh
    | some owner =>
      if key.model = "ReplayDetection" ∧ (sh.artifacts.get? key).isSome = true ∨
          sh.taken key p = true then
        Answers s now (.upsert key p expiresIn) .refused sh
      else
        Answers s now (.upsert key p expiresIn) .done
          (sh.put key (sh.bound now key p expiresIn owner)) := by
  simp only [Shelf.properKey, Bool.and_eq_true] at hkey
  have hinput := prepare_eq_ok hkey.2 hp
  have hsecurity := h.shows.security_eq key.realm now h.shelf
    (Shelf.canonical_of_proper hp)
  have hduplicates := h.shows.duplicates_eq key p
  have hrefused : ∀ e, upsert s.db now key p expiresIn s.tick = .error e →
      Answers s now (.upsert key p expiresIn) .refused sh := by
    intro e he
    refine ⟨s.db, .failed e, ?_, rfl, h.shows⟩
    simp only [execute, h.upsertBlocked, Bool.false_eq_true, if_false, he]
  have hdone : ∀ {db'}, upsert s.db now key p expiresIn s.tick = .ok db' → ∀ {sh'}, Shows db' sh' →
      Answers s now (.upsert key p expiresIn) .done sh' := by
    intro db' hok sh' hshows
    refine ⟨db', .done, ?_, rfl, hshows⟩
    simp only [execute, h.upsertBlocked, Bool.false_eq_true, if_false, hok]
  have hviolated : upsertStatement s.db now key p expiresIn (p.consumed.map (· * 1000)) s.tick =
      .error (.database "23505") → Answers s now (.upsert key p expiresIn) .refused sh := by
    intro hstatement
    refine hrefused (.database "23505") ?_
    simp only [upsert, hinput, hstatement, bind, Except.bind]
  cases hbinding : sh.binding now key.realm p with
  | none =>
    have hstatement : upsertStatement s.db now key p expiresIn (p.consumed.map (· * 1000)) s.tick =
        .ok (0, s.db) := by
      simp only [upsertStatement, hsecurity, hbinding, Option.map_none]
    obtain ⟨e, he⟩ := (upsert_of_statement hinput hstatement).2 (by decide)
      ((Shelf.binding_refused hbinding).imp_right .inl)
    exact hrefused e he
  | some owner =>
    rw [hbinding, Option.map_some] at hsecurity
    cases hget : s.db.records.get? key with
    | none =>
      have hnone := h.shows.get?_eq_none.mpr hget
      simp only [hnone, Option.isSome_none, Bool.false_eq_true, and_false, false_or]
      obtain ⟨hcolumns, hrow⟩ := proposedRow_artifact now key expiresIn none hbinding s.tick
        (by rw [hnone]; rfl)
      by_cases htaken : sh.taken key p = true
      · rw [if_pos htaken]
        refine hviolated ?_
        simp only [upsertStatement, hsecurity, hget, hduplicates, htaken, if_true]
      · rw [if_neg htaken, ← hrow]
        refine hdone ((upsert_of_statement hinput (n := 1) ?_).1 rfl) (h.shows.set key hcolumns)
        simp only [upsertStatement, hsecurity, hget, hduplicates, htaken, Bool.false_eq_true, if_false,
          Option.none_or]
        rfl
    | some old =>
      have hsome := h.shows.get?.mpr ⟨old, hget, rfl⟩
      simp only [hsome, Option.isSome_some, and_true]
      by_cases hreplay : key.model = "ReplayDetection"
      · rw [if_pos (.inl hreplay)]
        have hstatement : upsertStatement s.db now key p expiresIn (p.consumed.map (· * 1000))
            s.tick = .ok (0, s.db) := by
          simp only [upsertStatement, hsecurity, hget, if_pos hreplay]
        obtain ⟨e, he⟩ := (upsert_of_statement hinput hstatement).2 (by decide) (.inr (.inr hreplay))
        exact hrefused e he
      · obtain ⟨hcolumns, hrow⟩ := proposedRow_artifact now key expiresIn old.consumedAt hbinding
          s.tick (by rw [hsome, Option.bind_some, (h.shows.columns hget).payload_eq])
        by_cases htaken : sh.taken key p = true
        · rw [if_pos (.inr htaken)]
          refine hviolated ?_
          simp only [upsertStatement, hsecurity, hget, if_neg hreplay, hduplicates, htaken, if_true]
        · rw [if_neg (not_or.mpr ⟨hreplay, htaken⟩), ← hrow]
          refine hdone ((upsert_of_statement hinput (n := 1) ?_).1 rfl) (h.shows.set key hcolumns)
          simp only [upsertStatement, hsecurity, hget, if_neg hreplay, hduplicates, htaken,
            Bool.false_eq_true, if_false]

theorem upsert_admitted (h : Rep s sh) {key : Key} {p : Payload} {expiresIn : Option Int}
    (hadmits : sh.admits now (.upsert key p expiresIn) = true) :
    Answers s now (.upsert key p expiresIn) (sh.perform now (.upsert key p expiresIn)).2
      (sh.perform now (.upsert key p expiresIn)).1 := by
  simp only [Shelf.admits, Bool.and_eq_true] at hadmits
  obtain ⟨⟨hkey, hp⟩, hagrees⟩ := hadmits
  have hanswers := upsert_answers now expiresIn h hkey hp
  cases hbinding : sh.binding now key.realm p with
  | none =>
    rw [hbinding] at hanswers
    simpa only [Shelf.perform, hbinding, ite_self] using hanswers
  | some owner =>
    simp only [hbinding] at hanswers
    by_cases hreplay : key.model = "ReplayDetection" ∧ (sh.artifacts.get? key).isSome = true
    · rw [if_pos (.inl hreplay)] at hanswers
      simpa only [Shelf.perform, if_pos hreplay] using hanswers
    · have htaken := (Shelf.carries_of_agrees hagrees hbinding hreplay).2.1
      rw [if_neg (not_or.mpr ⟨hreplay, by rw [htaken]; decide⟩)] at hanswers
      simpa only [Shelf.perform, if_neg hreplay, hbinding] using hanswers

/-! ## Queries, consumption and deletion -/

theorem Shows.accountCurrent (h : Shows db sh) (hshelf : sh.Wf) {key : Key} {row : OidcRow}
    (hget : db.records.get? key = some row) (realm : String) :
    accountCurrent db realm row = sh.current realm row.artifact := by
  have hcanonical := hshelf.account (h.get?.mpr ⟨row, hget, rfl⟩)
  rw [(h.columns hget).payload_eq] at hcanonical
  unfold Postgres.accountCurrent Shelf.current
  rw [(h.columns hget).payload_eq]
  have hversion : row.artifact.securityVersion = row.accountSecurityVersion := rfl
  rw [hversion]
  cases row.accountSecurityVersion with
  | none => rfl
  | some v =>
    rcases Option.eq_none_or_eq_some row.payload.accountId with hnone | ⟨a, ha⟩
    · simp [hnone]
    · simp only [ha] at hcanonical ⊢
      obtain ⟨u, hu⟩ := Option.isSome_iff_exists.mp hcanonical
      obtain rfl := Uuid.ofText?_eq_some.mp hu
      rw [Option.bind_some, Option.bind_some, Uuid.parse_text, Option.bind_some, ← h.version]
      cases db.enabledUser realm u with
      | none => simp
      | some user => simp

theorem Shows.holds (h : Shows db sh) {key : Key} {row : OidcRow}
    (hget : db.records.get? key = some row) (c : Column) :
    holds c key row = Shelf.holds c key row.artifact.payload := by
  rw [(h.columns hget).payload_eq]
  cases c with
  | id v => rfl
  | userCode v => simp only [Postgres.holds, Shelf.holds, (h.columns hget).userCode]
  | uid v => simp only [Postgres.holds, Shelf.holds, (h.columns hget).uid]

/-- The query selects the row of the artifact that the shelf finds. -/
theorem findBy_eq (h : Rep s sh) (realm model : String) (c : Column) :
    (findBy s.db now realm model c).map (fun x => (x.1, x.2.artifact)) =
      sh.find now realm model c := by
  have hrow : ∀ {key row}, s.db.records.get? key = some row →
      (key.realm = realm && key.model = model && Postgres.holds c key row && row.live now &&
        Postgres.accountCurrent s.db realm row) =
      (key.realm = realm && key.model = model && Shelf.holds c key row.artifact.payload &&
        row.artifact.live now && sh.current realm row.artifact) := by
    intro key row hget
    rw [h.shows.holds hget, h.shows.accountCurrent h.shelf hget]
    rfl
  cases hfind : sh.find now realm model c with
  | none =>
    cases hby : findBy s.db now realm model c with
    | none => rfl
    | some x =>
      obtain ⟨key, row⟩ := x
      obtain ⟨hget, hp⟩ := OrderedMap.get?_of_findFirst? hby
      rw [hrow hget] at hp
      simp only [Bool.and_eq_true, decide_eq_true_eq] at hp
      have hsome : sh.find now realm model c = _ := (Shelf.find_eq_some h.shelf).mpr
        ⟨h.shows.get?.mpr ⟨row, hget, rfl⟩, hp.1.1.1.1, hp.1.1.1.2, hp.1.1.2, hp.1.2, hp.2⟩
      rw [hfind] at hsome
      cases hsome
  | some x =>
    obtain ⟨key, a⟩ := x
    obtain ⟨hget, rfl, rfl, hc, hlive, hcurrent⟩ := (Shelf.find_eq_some h.shelf).mp hfind
    obtain ⟨row, hrecord, rfl⟩ := h.shows.get?.mp hget
    have hby : findBy s.db now key.realm key.model c = some (key, row) := by
      refine OrderedMap.findFirst?_eq_some hrecord ?_ ?_
      · rw [hrow hrecord]
        simp [hc, hlive, hcurrent]
      · intro k row' hrecord' hp
        rw [hrow hrecord'] at hp
        simp only [Bool.and_eq_true, decide_eq_true_eq] at hp
        exact h.shelf.holds_unique (h.shows.get?.mpr ⟨row', hrecord', rfl⟩) hget hp.1.1.1.1 hp.1.1.1.2
          hp.1.1.2 hc
    rw [hby]
    rfl

theorem consumeStatement_shows (now : Instant) (h : Rep s sh) (key : Key) :
    (∃ db' sh', consumeStatement s.db now key = some db' ∧ sh.markConsumed now key = some sh' ∧
      Shows db' sh') ∨
    (consumeStatement s.db now key = none ∧ sh.markConsumed now key = none) := by
  unfold consumeStatement Shelf.markConsumed Shelf.live?
  rw [← h.shows.record key]
  cases hget : s.db.records.get? key with
  | none => exact .inr ⟨rfl, rfl⟩
  | some row =>
    have hcolumns := h.shows.columns hget
    have hlive : row.artifact.live now = row.live now := rfl
    rw [Option.map_some, Option.filter_some, hlive]
    by_cases hl : row.live now = true
    · simp only [if_pos hl, hcolumns.payload_eq, Option.map_eq_none_iff]
      by_cases hnone : row.consumedAt = none
      · simp only [if_pos hnone, if_pos (And.intro hnone hl)]
        refine .inl ⟨_, _, rfl, rfl, ?_⟩
        have hcolumns' : Columns { row with consumedAt := some now.ms } :=
          ⟨hcolumns.grantId, hcolumns.userCode, hcolumns.uid, hcolumns.consumed⟩
        have hconsumed : OidcRow.artifact { row with consumedAt := some now.ms } =
            row.artifact.consume now := by
          refine Artifact.ext ?_ rfl rfl
          rw [hcolumns'.payload_eq]
          simp only [Artifact.consume, hcolumns.payload_eq]
          rfl
        rw [← hconsumed]
        exact h.shows.set key hcolumns'
      · simp only [if_neg hnone, if_neg fun hc : row.consumedAt = none ∧ row.live now = true =>
          hnone hc.1]
        exact .inr ⟨trivial, trivial⟩
    · simp only [if_neg hl, if_neg fun hc : row.consumedAt = none ∧ row.live now = true => hl hc.2]
      exact .inr ⟨trivial, trivial⟩

theorem Rep.consumeBlocked (h : Rep s sh) (key : Key) : s.consumeBlocked now key = false := by
  rw [State.consumeBlocked, h.rowLocked, Bool.and_false]

theorem consume_answers (h : Rep s sh) (key : Key) :
    Answers s now (.consume key) (sh.perform now (.consume key)).2
      (sh.perform now (.consume key)).1 := by
  simp only [Shelf.perform]
  rcases consumeStatement_shows now h key with ⟨db', sh', hdb, hsh, hshows⟩ | ⟨hdb, hsh⟩
  · simp only [hsh]
    refine ⟨db', .done, ?_, rfl, hshows⟩
    simp only [execute, h.consumeBlocked, Bool.false_eq_true, if_false, consume, hdb]
  · simp only [hsh]
    refine ⟨s.db, .failed (alreadyConsumed key.model), ?_, rfl, h.shows⟩
    simp only [execute, h.consumeBlocked, Bool.false_eq_true, if_false, consume, hdb]

theorem claimInitialAccessToken_answers (h : Rep s sh) (realm id : String) :
    Answers s now (.claimInitialAccessToken realm id)
      (sh.perform now (.claimInitialAccessToken realm id)).2
      (sh.perform now (.claimInitialAccessToken realm id)).1 := by
  simp only [Shelf.perform]
  rcases consumeStatement_shows now h ⟨realm, "InitialAccessToken", id⟩ with
    ⟨db', sh', hdb, hsh, hshows⟩ | ⟨hdb, hsh⟩
  · simp only [hsh]
    refine ⟨db', .claimed true, ?_, rfl, hshows⟩
    simp only [execute, h.consumeBlocked, Bool.false_eq_true, if_false, claimInitialAccessToken, hdb]
  · simp only [hsh]
    refine ⟨s.db, .claimed false, ?_, rfl, h.shows⟩
    simp only [execute, h.consumeBlocked, Bool.false_eq_true, if_false, claimInitialAccessToken, hdb]

theorem destroy_answers (h : Rep s sh) (key : Key) :
    Answers s now (.destroy key) .done { sh with artifacts := sh.artifacts.erase key } := by
  refine ⟨destroy s.db key, .done, ?_, rfl, h.shows.filter fun _ => rfl⟩
  simp only [execute, h.rowLocked, Bool.and_false, Bool.false_eq_true, if_false]

theorem revokeByGrantId_answers (h : Rep s sh) (realm model g : String) :
    Answers s now (.revokeByGrantId realm model g) .done (sh.keep fun key a =>
      !(key.realm = realm && key.model = model && a.payload.grantId = some g)) := by
  refine ⟨revokeByGrantId s.db realm model g, .done, ?_, rfl, h.shows.filter ?_⟩
  · have hfree : (s.db.records.entries.any fun x => x.1.realm = realm && x.1.model = model &&
        x.2.grantId = some g && s.rowLocked x.1) = false := by
      refine List.any_eq_false.mpr fun x _ => ?_
      simp [h.rowLocked]
    simp only [execute, hfree, Bool.false_eq_true, if_false]
  · intro key row hget
    simp only [(h.shows.columns hget).payload_eq, (h.shows.columns hget).grantId]

theorem Shows.accountGrant (h : Shows db sh) (realm accountId g : String) :
    accountGrant db realm accountId g = sh.accountGrant realm accountId g := by
  unfold Postgres.accountGrant Shelf.accountGrant
  rw [← h.record]
  cases hget : db.records.get? ⟨realm, "Grant", g⟩ with
  | none => rfl
  | some row => simp only [Option.map_some, (h.columns hget).payload_eq]

theorem Shows.doomed (h : Shows db sh) {key : Key} {row : OidcRow}
    (hget : db.records.get? key = some row) (realm accountId : String) :
    doomed db realm accountId key row = sh.doomed realm accountId key row.artifact := by
  unfold Postgres.doomed Shelf.doomed
  rw [(h.columns hget).payload_eq, (h.columns hget).grantId]
  cases row.payload.grantId with
  | none => rfl
  | some g => simp only [h.accountGrant]

theorem contains_doomedKeys {key : Key} {row : OidcRow} (hget : db.records.get? key = some row)
    (realm accountId : String) :
    (doomedKeys db realm accountId).contains key = Postgres.doomed db realm accountId key row := by
  rw [Bool.eq_iff_iff, List.contains_iff_mem, doomedKeys, List.mem_map]
  constructor
  · rintro ⟨⟨k, row'⟩, hmem, rfl⟩
    obtain ⟨hmem, hdoomed⟩ := List.mem_filter.mp hmem
    rw [OrderedMap.mem_entries_iff.mp hmem] at hget
    cases hget
    exact hdoomed
  · intro hdoomed
    exact ⟨(key, row), List.mem_filter.mpr ⟨OrderedMap.mem_entries_iff.mpr hget, hdoomed⟩, rfl⟩

/-- What the `COMMIT` of a mutation leaves. -/
theorem Shows.revoked (h : Shows db sh) (realm : String) (u : Uuid) (slot : Slot) :
    Shows { db.withUser realm u slot with records := db.records.filter fun key _ =>
        !(doomedKeys db realm u.text).contains key }
      ((sh.withUser realm u slot).revokeAccount realm u.text) := by
  refine (h.withUser realm u slot).filter (p := fun key _ =>
    !(doomedKeys db realm u.text).contains key) ?_
  intro key row hget
  have hget' : db.records.get? key = some row := hget
  rw [contains_doomedKeys hget', h.doomed hget']
  rfl

/-! ## Transactions -/

/-- The transaction is the only one that is open. -/
structure Alone (t : State) (db : Db) (id : Nat) (x : Txn) : Prop where
  db : t.db = db
  txns : t.txns = OrderedMap.empty.set id x

theorem Alone.get? {t : State} {id : Nat} {x : Txn} (h : Alone t db id x) :
    t.txns.get? id = some x := by
  rw [h.txns, OrderedMap.get?_set_self]

theorem Alone.setTxn {t : State} {id : Nat} {x : Txn} (h : Alone t db id x) (y : Txn) :
    Alone (t.setTxn id y) db id y := by
  refine ⟨h.db, ?_⟩
  simp only [State.setTxn, h.txns, OrderedMap.set_set]

theorem Alone.step_txn {t : State} {id : Nat} {x : Txn} (h : Alone t db id x) (now : Instant)
    (st : TxnStep) : step t (now, .txn id st) = stepTxn t id x st := by
  simp only [Postgres.step, h.get?, Option.bind_some]

/-- The statements of a mutation up to `revokeAccountSql`. -/
theorem Alone.revoke {t : State} {id : Nat} {x : Txn} (h : Alone t db id x)
    (hmarked : x.marked = []) (hstage : x.kind = .mutate ∧ x.stage = .bumped ∨
      x.kind = .delete ∧ x.stage = .begun) :
    stepTxn t id x .revoke = some (t.setTxn id
      { x with stage := .revoked (doomedKeys db x.realm x.accountId) }, .done) := by
  have hlocked : ∀ key, t.rowLocked key = false := by
    intro key
    simp [State.rowLocked, h.txns, OrderedMap.empty, OrderedMap.set, OrderedMap.put, hmarked]
  have hany : (doomedKeys db x.realm x.accountId).any t.rowLocked = false :=
    List.any_eq_false.mpr fun key _ => by simp [hlocked]
  simp only [stepTxn, Postgres.revoke, h.db, hany, Bool.false_eq_true, if_false]
  rcases hstage with ⟨hkind, hstage⟩ | ⟨hkind, hstage⟩
  · rw [hkind, hstage]
  · rw [hkind, hstage]

/-- The last statements: the rows are marked, and the transaction commits. -/
theorem Alone.commit (now : Instant) {t : State} {id : Nat} {x : Txn} {slot : Slot} (h : Alone t db id x)
    (hshows : Shows db sh) (hshelf : sh.Wf) {u : Uuid} (huser : x.user = u)
    (hend : x.kind = .mutate ∧ x.stage = .revoked (doomedKeys db realm u.text) ∧ slot = .live x.row ∨
      x.kind = .delete ∧ x.stage = .deleted (doomedKeys db realm u.text) ∧ slot = .retired)
    (hrealm : x.realm = realm) :
    ∃ t', (step t (now, .txn id .commit)).map (·.1) = some t' ∧
      Rep t' ((sh.withUser realm u slot).revokeAccount realm u.text) := by
  have hcommitted : committed db x = some { db.withUser realm u slot with
      records := db.records.filter fun key _ => !(doomedKeys db realm u.text).contains key } := by
    rcases hend with ⟨hkind, hstage, rfl⟩ | ⟨hkind, hstage, rfl⟩
    · simp only [committed, hkind, hstage, Txn.marked, Txn.revoked?, hrealm, huser, Option.map_some,
        Option.getD_some, Db.withUser]
    · simp only [committed, hkind, hstage, Txn.marked, Txn.revoked?, hrealm, huser, Option.map_some,
        Option.getD_some, Db.withUser]
  rw [h.step_txn]
  simp only [stepTxn, h.db, hcommitted, Option.map_some]
  refine ⟨_, rfl, ?_, (hshelf.withUser _ _ _).filter _, hshows.revoked realm u slot⟩
  simp [State.endTxn, h.txns, OrderedMap.erase, OrderedMap.filter, OrderedMap.set, OrderedMap.put,
    OrderedMap.empty]

/-- `BEGIN` with the lock on the user. -/
theorem start_alone (now : Instant) (h : Rep s sh) (kind : Kind)
    (hrealm : Shelf.proper realm = true) (u : Uuid) :
    match (sh.users realm u).value? with
    | none => ∃ s', step s (now, .start kind realm u.text) = some (s', .notFound) ∧ Rep s' sh
    | some row => ∃ s', step s (now, .start kind realm u.text) = some (s', .begun) ∧
        Alone s' s.db s.tick ⟨kind, realm, u.text, u, row, .begun⟩ := by
  have husers : s.db.users realm u = sh.users realm u := by rw [h.shows.users]
  cases hrow : (sh.users realm u).value? with
  | none =>
    refine ⟨_, ?_, (⟨h.free, h.shelf, h.shows⟩ : Rep { s with tick := s.tick + 1 } sh)⟩
    simp only [step, start, checkAccount_eq_ok hrealm, husers, hrow]
  | some row =>
    refine ⟨s.setTxn s.tick ⟨kind, realm, u.text, u, row, .begun⟩, ?_, rfl, ?_⟩
    · simp only [step, start, checkAccount_eq_ok hrealm, husers, hrow, h.userLocked, Bool.false_eq_true,
        if_false, State.setTxn]
    · simp only [State.setTxn, h.free]

theorem mutate_performs (h : Rep s sh) (hrealm : Shelf.proper realm = true) (u : Uuid)
    (enabled : Option Bool) :
    ∃ s', transaction s now .mutate realm u.text (mutateSteps enabled) =
        some (s', (sh.perform now (.mutateAccountSecurity realm u enabled)).2) ∧
      Rep s' (sh.perform now (.mutateAccountSecurity realm u enabled)).1 := by
  have hstart := start_alone now h .mutate hrealm u
  cases hrow : (sh.users realm u).value? with
  | none =>
    rw [hrow] at hstart
    obtain ⟨s', hstep, hrep⟩ := hstart
    exact ⟨s', by simp [transaction, hstep, Shelf.perform, hrow, Outcome.answer],
      by simpa only [Shelf.perform, hrow] using hrep⟩
  | some row =>
    rw [hrow] at hstart
    obtain ⟨s₀, hstep, halone⟩ := hstart
    have hcalled : ∃ s₁, (enabled.toList.map TxnStep.enable).foldlM
        (fun t st => (step t (now, .txn s.tick st)).map (·.1)) s₀ = some s₁ ∧
        Alone s₁ s.db s.tick
          ⟨.mutate, realm, u.text, u, { row with enabled := enabled.getD row.enabled }, .begun⟩ := by
      cases enabled with
      | none => exact ⟨s₀, rfl, halone⟩
      | some b =>
        refine ⟨_, ?_, halone.setTxn _⟩
        · simp only [Option.toList_some, List.map_cons, List.map_nil, List.foldlM_cons, List.foldlM_nil,
            halone.step_txn, stepTxn, and_self, if_true, Option.map_some, Option.bind_eq_bind,
            Option.bind_some]
          rfl
    obtain ⟨s₁, hfold, halone₁⟩ := hcalled
    have hbumped := halone₁.setTxn ⟨.mutate, realm, u.text, u, Shelf.mutated row enabled, .bumped⟩
    obtain ⟨s', hcommit, hrep⟩ := (hbumped.setTxn ⟨.mutate, realm, u.text, u,
      Shelf.mutated row enabled, .revoked (doomedKeys s.db realm u.text)⟩).commit now
      h.shows h.shelf (u := u) rfl (.inl ⟨rfl, rfl, rfl⟩) rfl
    refine ⟨s', ?_, by simpa only [Shelf.perform, hrow] using hrep⟩
    have hrest : [TxnStep.bump, .revoke, .commit].foldlM
        (fun t st => (step t (now, .txn s.tick st)).map (·.1)) s₁ = some s' := by
      have hbump : stepTxn s₁ s.tick ⟨.mutate, realm, u.text, u,
          { row with enabled := enabled.getD row.enabled }, .begun⟩ .bump =
          some (s₁.setTxn s.tick ⟨.mutate, realm, u.text, u, Shelf.mutated row enabled, .bumped⟩,
            .done) := rfl
      have hrevoke := hbumped.revoke rfl (.inl ⟨rfl, rfl⟩)
      simp only [List.foldlM_cons, List.foldlM_nil, Option.bind_eq_bind, halone₁.step_txn, hbump,
        Option.map_some, Option.bind_some, hbumped.step_txn, hrevoke, hcommit]
      rfl
    simp only [transaction, hstep, Option.bind_some, if_true, mutateSteps, List.foldlM_append, hfold,
      Option.bind_eq_bind, hrest, Option.map_some, Shelf.perform, hrow]

theorem delete_performs (h : Rep s sh) (hrealm : Shelf.proper realm = true) (u : Uuid) :
    ∃ s', transaction s now .delete realm u.text deleteSteps =
        some (s', (sh.perform now (.deleteAccount realm u)).2) ∧
      Rep s' (sh.perform now (.deleteAccount realm u)).1 := by
  have hstart := start_alone now h .delete hrealm u
  cases hrow : (sh.users realm u).value? with
  | none =>
    rw [hrow] at hstart
    obtain ⟨s', hstep, hrep⟩ := hstart
    exact ⟨s', by simp [transaction, hstep, Shelf.perform, hrow, Outcome.answer],
      by simpa only [Shelf.perform, hrow] using hrep⟩
  | some row =>
    rw [hrow] at hstart
    obtain ⟨s₀, hstep, halone⟩ := hstart
    have hrevoked := halone.setTxn ⟨.delete, realm, u.text, u, row,
      .revoked (doomedKeys s.db realm u.text)⟩
    obtain ⟨s', hcommit, hrep⟩ := (hrevoked.setTxn ⟨.delete, realm, u.text, u, row,
      .deleted (doomedKeys s.db realm u.text)⟩).commit now h.shows h.shelf (u := u) rfl
      (.inr ⟨rfl, rfl, rfl⟩) rfl
    refine ⟨s', ?_, by simpa only [Shelf.perform, hrow] using hrep⟩
    have hfold : deleteSteps.foldlM (fun t st => (step t (now, .txn s.tick st)).map (·.1)) s₀ =
        some s' := by
      have hrevoke := halone.revoke rfl (.inr ⟨rfl, rfl⟩)
      have hdelete : ∀ t : State, stepTxn t s.tick ⟨.delete, realm, u.text, u, row,
          .revoked (doomedKeys s.db realm u.text)⟩ .deleteUser =
          some (t.setTxn s.tick ⟨.delete, realm, u.text, u, row,
            .deleted (doomedKeys s.db realm u.text)⟩, .done) := fun _ => rfl
      simp only [deleteSteps, List.foldlM_cons, List.foldlM_nil, Option.bind_eq_bind, halone.step_txn,
        hrevoke, Option.map_some, Option.bind_some, hrevoked.step_txn, hdelete, hcommit]
      rfl
    simp only [transaction, hstep, Option.bind_some, if_true, hfold, Option.map_some, Shelf.perform,
      hrow]

/-! ## The adapter -/

/-- An admitted call of the PostgreSQL adapter does what the shelf does. -/
theorem refines : Transition.Refines performCall (fun sh (c : Instant × Request) => sh.perform c.1 c.2)
    (fun sh c => sh.admits c.1 c.2 = true) Rep := by
  rintro s sh ⟨now, r⟩ h hadmits
  have hshelf := h.shelf.perform hadmits
  have hrun : ∀ {st : Statement}, statementOf r = some st →
      Answers s now st (sh.perform now r).2 (sh.perform now r).1 →
      ∃ s', (statementOf r).bind (fun st => (step s (now, .run st)).map fun x => (x.1, x.2.answer)) =
        some (s', (sh.perform now r).2) ∧ Rep s' (sh.perform now r).1 := by
    rintro st hst ⟨db', o, hstatement, hanswer, hshows⟩
    refine ⟨{ s with db := db', tick := s.tick + 1 }, ?_, h.free, hshelf, hshows⟩
    simp only [hst, Option.bind_some, step, statement_of_check (check_eq_ok hst hadmits), hstatement,
      Option.map_some, hanswer]
  cases r with
  | upsert key p expiresIn => exact hrun rfl (upsert_admitted h hadmits)
  | find realm model c =>
    refine hrun rfl ⟨s.db, .found (findBy s.db now realm model c), rfl, ?_, h.shows⟩
    simp only [Shelf.perform, ← findBy_eq h, Outcome.answer, Option.map_map]
    rfl
  | consume key => exact hrun rfl (consume_answers h key)
  | claimInitialAccessToken realm id => exact hrun rfl (claimInitialAccessToken_answers h realm id)
  | destroy key => exact hrun rfl (destroy_answers h key)
  | revokeByGrantId realm model g => exact hrun rfl (revokeByGrantId_answers h realm model g)
  | setUser realm u row =>
    obtain ⟨slot, hslot⟩ := Option.isSome_iff_exists.mp hadmits
    have hperform : sh.perform now (.setUser realm u row) = (sh.withUser realm u slot, .done) := by
      simp only [Shelf.perform, hslot]
    refine hrun rfl ⟨s.db.withUser realm u slot, .done, ?_, ?_, ?_⟩
    · simp only [execute, h.userLocked, Bool.false_eq_true, if_false, h.shows.users, hslot,
        Option.map_some]
    · rw [hperform]
      rfl
    · rw [hperform]
      exact h.shows.withUser realm u slot
  | mutateAccountSecurity realm u enabled => exact mutate_performs h hadmits u enabled
  | deleteAccount realm u => exact delete_performs h hadmits u

end AuthMe.Adapters.Postgres

import AuthMe.Adapters.PostgresStep

/-!
# Account epochs on PostgreSQL

What a mutation of an account leaves behind, as in the in-memory adapter. `Sound` is the
invariant of all runs: a version in a row has been current, and a user that a transaction
has locked is as the transaction has found it. `Frozen` says what the locks on deleted
rows are for: a row that a transaction has deleted stays as it is until the commit.
-/

namespace AuthMe.Adapters.Postgres

open Epoch (Cell)

/-- The account of a row. -/
def OidcRow.account? (row : OidcRow) : Option Uuid := row.payload.accountId.bind Uuid.parse

/-- What no statement but `upsert` changes in a row. -/
structure OidcRow.Same (row row' : OidcRow) : Prop where
  payload : row'.payload = row.payload
  grantId : row'.grantId = row.grantId
  userCode : row'.userCode = row.userCode
  uid : row'.uid = row.uid
  version : row'.accountSecurityVersion = row.accountSecurityVersion
  saved : row'.saved = row.saved

theorem OidcRow.Same.refl (row : OidcRow) : row.Same row := ⟨rfl, rfl, rfl, rfl, rfl, rfl⟩

theorem OidcRow.Same.trans {row row' row'' : OidcRow} (h : row.Same row') (h' : row'.Same row'') :
    row.Same row'' :=
  ⟨h'.payload.trans h.payload, h'.grantId.trans h.grantId, h'.userCode.trans h.userCode,
    h'.uid.trans h.uid, h'.version.trans h.version, h'.saved.trans h.saved⟩

theorem OidcRow.Same.account? {row row' : OidcRow} (h : row.Same row') :
    row'.account? = row.account? := by
  rw [OidcRow.account?, h.payload]
  rfl

/-- Two rows have the same value in a column with a unique index. -/
def OidcRow.Shares (row row' : OidcRow) : Prop :=
  (row.userCode.isSome ∧ row'.userCode = row.userCode) ∨ (row.uid.isSome ∧ row'.uid = row.uid)

theorem OidcRow.Shares.symm {row row' : OidcRow} (h : row.Shares row') : row'.Shares row := by
  rcases h with ⟨hs, h⟩ | ⟨hs, h⟩
  · exact .inl ⟨by rw [h]; exact hs, h.symm⟩
  · exact .inr ⟨by rw [h]; exact hs, h.symm⟩

/-- A row that the step has written, and what its statement has checked. -/
structure Born (s : State) (a : Action) (key : Key) (row : OidcRow) : Prop where
  event : ∃ payload expiresIn, a = .run (.upsert key payload expiresIn)
  unique : ∀ {k old}, s.db.records.get? k = some old → k.realm = key.realm →
    k.model = key.model → row.Shares old → k = key
  saved : row.saved = s.tick
  account : ∀ {u}, row.account? = some u →
    ∃ v, row.accountSecurityVersion = some v ∧ enabledVersion (s.db.users key.realm u) = some v
  grant : ∀ {g}, row.grantId = some g → ∃ grant u v,
    s.db.records.get? ⟨key.realm, "Grant", g⟩ = some grant ∧ grant.payload.accountId = some u.text ∧
      grant.accountSecurityVersion = some v ∧ enabledVersion (s.db.users key.realm u) = some v

theorem born_of_upsert {s : State} {now : Instant} {key : Key} {payload : Payload} {row : OidcRow}
    (h : Written s.db now key payload s.tick row) (expiresIn : Option Int) :
    Born s (.run (.upsert key payload expiresIn)) key row := by
  obtain ⟨owner, hsec, hacc⟩ := h.security
  obtain ⟨haccount, howner, hparent⟩ := security_eq_some hsec
  have hpayload : row.payload.accountId = owner := by
    rw [hacc]
    cases hp : payload.accountId with
    | none => simp
    | some a =>
      obtain ⟨u, -, rfl⟩ := howner a hp
      rfl
  refine ⟨⟨payload, expiresIn, rfl⟩, fun {k old} hold hrealm hmodel hshares => ?_, h.saved,
    fun {u} hu => ?_, fun {g} hg => ?_⟩
  · by_contra hne
    have hid : k.id ≠ key.id := fun hid => hne (Key.ext hrealm hmodel hid)
    have hunique := h.unique
    simp only [duplicates, List.any_eq_false] at hunique
    refine hunique (k, old) (OrderedMap.mem_entries_iff.mpr hold) ?_
    rw [OidcRow.Shares, h.userCode, h.uid] at hshares
    rcases hshares with ⟨hs, heq⟩ | ⟨hs, heq⟩ <;> simp [collides, hrealm, hmodel, hid, hs, heq]
  · rw [OidcRow.account?, hpayload] at hu
    exact haccount u hu
  · rw [h.grantId] at hg
    obtain ⟨grant, u, v, -, hget, hrest⟩ := hparent g hg
    exact ⟨grant, u, v, hget, hrest⟩

/-- A row after a step was there before it, or the step has written it. -/
theorem step_row {s s' : State} {e : Instant × Action} {o : Outcome}
    (h : step s e = some (s', o)) {key : Key} {row' : OidcRow}
    (hr : s'.db.records.get? key = some row') :
    (∃ row, s.db.records.get? key = some row ∧ row.Same row') ∨ Born s e.2 key row' := by
  cases step_change h key with
  | kept hrow => exact .inl ⟨row', by rw [← hrow, hr], .refl row'⟩
  | removed hrow =>
    rw [hrow] at hr
    cases hr
  | saved hup =>
    obtain ⟨row, hwritten, hdb⟩ := upsert_eq_ok hup
    rw [hdb, OrderedMap.get?_set_self] at hr
    cases hr
    exact .inr (born_of_upsert hwritten _)
  | redeemed hrow hfree hrow' =>
    rw [hrow'] at hr
    cases hr
    exact .inl ⟨_, hrow, rfl, rfl, rfl, rfl, rfl, rfl⟩

/-! ## The invariant of all runs -/

structure Sound (s : State) : Prop where
  saved : ∀ {key row}, s.db.records.get? key = some row → row.saved < s.tick
  bound : ∀ {key row u}, s.db.records.get? key = some row → row.account? = some u →
    ∃ v, row.accountSecurityVersion = some v ∧ Seen (s.db.users key.realm u) v
  txn_lt : ∀ {i t}, s.txns.get? i = some t → i < s.tick
  locked : ∀ {i t}, s.txns.get? i = some t → ∃ row, s.db.users t.realm t.user = .live row ∧
    row.securityVersion ≤ t.row.securityVersion
  alone : ∀ {i j t t'}, s.txns.get? i = some t → s.txns.get? j = some t' → t.realm = t'.realm →
    t.user = t'.user → i = j

theorem sound_initial (users : String → Uuid → Slot) : Sound (.initial users) where
  saved h := by cases h
  bound h := by cases h
  txn_lt h := by cases h
  locked h := by cases h
  alone h := by cases h

theorem not_locked {s : State} {realm : String} {u : Uuid} (h : s.userLocked realm u = false)
    {i : Nat} {t : Txn} (ht : s.txns.get? i = some t) : ¬ (t.realm = realm ∧ t.user = u) := by
  intro hu
  have hmem := OrderedMap.mem_entries_iff.mpr ht
  simp only [State.userLocked, List.any_eq_false] at h
  simpa [hu] using h _ hmem

theorem withUser_users (db : Db) (realm : String) (u : Uuid) (slot : Slot) (r : String) (v : Uuid) :
    (db.withUser realm u slot).users r v = if r = realm ∧ v = u then slot else db.users r v := rfl

/-- Time goes forwards for every user. -/
theorem Sound.users {s s' : State} {e : Instant × Action} {o : Outcome} (hs : Sound s)
    (h : step s e = some (s', o)) (realm : String) (u : Uuid) :
    Cell.Le Account.securityVersion (s.db.users realm u) (s'.db.users realm u) := by
  cases (step_moves h).1 with
  | still hdb => rw [hdb]
  | user hfree hset hdb =>
    rw [hdb, withUser_users]
    split
    · rename_i hu
      rw [hu.1, hu.2]
      exact le_of_setUser hset
    · exact .refl _
  | started _ _ _ _ hdb => rw [hdb]
  | txn he ht hm =>
    rename_i i t a
    cases hm with
    | advanced hs' | rolledBack _ hs' =>
      rw [hs']
      exact .refl _
    | committed ha hslot hs' =>
      obtain ⟨row, hrow, hle⟩ := hs.locked ht
      rw [hs']
      change Cell.Le Account.securityVersion _ ((s.db.withUser t.realm t.user _).users realm u)
      rw [withUser_users]
      split
      · rename_i hu
        rw [hu.1, hu.2, hrow]
        rcases hslot with rfl | ⟨rfl, -⟩
        · trivial
        · exact hle
      · exact .refl _

/-- The transactions after a step: an old one, unchanged or advanced, or one that has just
started. -/
theorem step_txns {s s' : State} {e : Instant × Action} {o : Outcome}
    (h : step s e = some (s', o)) {i : Nat} {t' : Txn} (ht' : s'.txns.get? i = some t') :
    (∃ t, s.txns.get? i = some t ∧ (t' = t ∨ (t.Advance t' ∧ ∃ a, e.2 = .txn i a ∧ s'.db = s.db ∧
      Revokes s t t' a))) ∨
    (i = s.tick ∧ s'.db = s.db ∧ s.userLocked t'.realm t'.user = false ∧ t'.stage = .begun ∧
      s.db.users t'.realm t'.user = .live t'.row ∧ Uuid.parse t'.accountId = some t'.user ∧
      e.2 = .start t'.kind t'.realm t'.accountId) := by
  have herase : ∀ {j}, (s.txns.erase j).get? i = some t' → s.txns.get? i = some t' := by
    intro j hj
    rw [OrderedMap.get?_erase] at hj
    split at hj
    · cases hj
    · exact hj
  cases (step_moves h).1 with
  | still _ htxns | user _ _ _ htxns =>
    rw [htxns] at ht'
    exact .inl ⟨t', ht', .inl rfl⟩
  | started he hu hrow hfree hdb htxns =>
    rw [htxns, OrderedMap.get?_set] at ht'
    split at ht'
    · rename_i hi
      cases ht'
      exact .inr ⟨hi, hdb, hfree, rfl, hrow, hu, he⟩
    · exact .inl ⟨t', ht', .inl rfl⟩
  | txn he ht hm =>
    rename_i j t a
    cases hm with
    | advanced hs' hadvance hrevoke =>
      rw [hs'] at ht'
      simp only [State.setTxn, OrderedMap.get?_set] at ht'
      split at ht'
      · rename_i hi
        subst hi
        cases ht'
        exact .inl ⟨t, ht, .inr ⟨hadvance, a, he, by rw [hs']; rfl, hrevoke⟩⟩
      · exact .inl ⟨t', ht', .inl rfl⟩
    | rolledBack _ hs' | committed _ _ hs' =>
      rw [hs'] at ht'
      exact .inl ⟨t', herase ht', .inl rfl⟩

/-- The user of a transaction that is open after a step is unchanged by the step. -/
theorem Sound.users_locked {s s' : State} {e : Instant × Action} {o : Outcome} (hs : Sound s)
    (h : step s e = some (s', o)) {i : Nat} {t t' : Txn} (ht : s.txns.get? i = some t)
    (ht' : s'.txns.get? i = some t') :
    s'.db.users t.realm t.user = s.db.users t.realm t.user := by
  cases (step_moves h).1 with
  | still hdb => rw [hdb]
  | user hfree hset hdb =>
    rw [hdb, withUser_users, if_neg (not_locked hfree ht)]
  | started _ _ _ _ hdb => rw [hdb]
  | txn he htj hm =>
    rename_i j tj a
    cases hm with
    | advanced hs' | rolledBack _ hs' =>
      rw [hs']
      rfl
    | committed ha hslot hs' =>
      rw [hs'] at ht' ⊢
      change (s.db.withUser tj.realm tj.user _).users t.realm t.user = _
      rw [withUser_users, if_neg]
      -- the transaction that commits would be this one, which is still open
      rintro ⟨hrealm, huser⟩
      obtain rfl := hs.alone ht htj hrealm huser
      simp [State.endTxn] at ht'

theorem Sound.step {s s' : State} {e : Instant × Action} {o : Outcome} (hs : Sound s)
    (h : step s e = some (s', o)) : Sound s' where
  saved {key row} hr := by
    rw [(step_moves h).2]
    rcases step_row h hr with ⟨row₀, hr₀, hsame⟩ | hborn
    · rw [hsame.saved]
      exact Nat.lt_succ_of_lt (hs.saved hr₀)
    · rw [hborn.saved]
      exact Nat.lt_succ_self _
  bound {key row u} hr hu := by
    have hmono := hs.users h key.realm u
    rcases step_row h hr with ⟨row₀, hr₀, hsame⟩ | hborn
    · rw [hsame.account?] at hu
      obtain ⟨v, hv, hseen⟩ := hs.bound hr₀ hu
      exact ⟨v, by rw [hsame.version, hv], hseen.mono hmono⟩
    · obtain ⟨v, hv, henabled⟩ := hborn.account hu
      exact ⟨v, hv, (seen_of_enabledVersion henabled).mono hmono⟩
  txn_lt {i t'} ht' := by
    rw [(step_moves h).2]
    rcases step_txns h ht' with ⟨t, ht, -⟩ | ⟨rfl, -⟩
    · exact Nat.lt_succ_of_lt (hs.txn_lt ht)
    · exact Nat.lt_succ_self _
  locked {i t'} ht' := by
    rcases step_txns h ht' with ⟨t, ht, hsame | ⟨hadvance, -⟩⟩ | ⟨-, hdb, -, -, hrow, -⟩
    · subst hsame
      rw [hs.users_locked h ht ht']
      exact hs.locked ht
    · obtain ⟨row, hrow, hle⟩ := hs.locked ht
      rw [hadvance.realm, hadvance.user, hs.users_locked h ht ht']
      exact ⟨row, hrow, Nat.le_trans hle hadvance.le⟩
    · rw [hdb]
      exact ⟨_, hrow, Nat.le_refl _⟩
  alone {i j t₁ t₂} h₁ h₂ hrealm huser := by
    have hold : ∀ {i t'}, s'.txns.get? i = some t' → (∃ t, s.txns.get? i = some t ∧
        t.realm = t'.realm ∧ t.user = t'.user) ∨
        (i = s.tick ∧ s.userLocked t'.realm t'.user = false) := by
      intro i t' ht'
      rcases step_txns h ht' with ⟨t, ht, hsame | ⟨hadvance, -⟩⟩ | ⟨hi, -, hfree, -⟩
      · exact .inl ⟨t, ht, by rw [hsame], by rw [hsame]⟩
      · exact .inl ⟨t, ht, hadvance.realm.symm, hadvance.user.symm⟩
      · exact .inr ⟨hi, hfree⟩
    rcases hold h₁ with ⟨t, ht, hr, hu⟩ | ⟨rfl, hfree⟩
    · rcases hold h₂ with ⟨t', ht', hr', hu'⟩ | ⟨rfl, hfree'⟩
      · exact hs.alone ht ht' (hr.trans (hrealm.trans hr'.symm)) (hu.trans (huser.trans hu'.symm))
      · exact absurd ⟨hr.trans hrealm, hu.trans huser⟩ (not_locked hfree' ht)
    · rcases hold h₂ with ⟨t', ht', hr', hu'⟩ | ⟨rfl, -⟩
      · exact absurd ⟨hr'.trans hrealm.symm, hu'.trans huser.symm⟩ (not_locked hfree ht')
      · rfl

/-- The unique indexes. -/
def Indexed (db : Db) : Prop :=
  ∀ {k k' row row'}, db.records.get? k = some row → db.records.get? k' = some row' →
    k'.realm = k.realm → k'.model = k.model → row.Shares row' → k' = k

theorem indexed_initial (users : String → Uuid → Slot) : Indexed (State.initial users).db := by
  intro k k' row row' h
  cases h

theorem Indexed.step {s s' : State} {e : Instant × Action} {o : Outcome} (hi : Indexed s.db)
    (h : step s e = some (s', o)) : Indexed s'.db := by
  intro k k' row row' hr hr' hrealm hmodel hshares
  have hsame : ∀ {a b a' b' : OidcRow}, a.Same a' → b.Same b' → a'.Shares b' → a.Shares b := by
    intro a b a' b' ha hb hs
    rwa [OidcRow.Shares, ha.userCode, ha.uid, hb.userCode, hb.uid] at hs
  rcases step_row h hr with ⟨row₀, hr₀, hs₀⟩ | hborn
  · rcases step_row h hr' with ⟨row₀', hr₀', hs₀'⟩ | hborn'
    · exact hi hr₀ hr₀' hrealm hmodel (hsame hs₀ hs₀' hshares)
    · exact (hborn'.unique hr₀ hrealm.symm hmodel.symm
        (hsame (.refl _) hs₀ hshares.symm)).symm
  · rcases step_row h hr' with ⟨row₀', hr₀', hs₀'⟩ | hborn'
    · exact hborn.unique hr₀' hrealm hmodel (hsame (.refl _) hs₀' hshares)
    · obtain ⟨_, _, he⟩ := hborn.event
      obtain ⟨_, _, he'⟩ := hborn'.event
      rw [he] at he'
      cases he'
      rfl

/-! ## Rows that a transaction has deleted -/

theorem mem_doomedKeys {db : Db} {realm accountId : String} {key : Key} :
    key ∈ doomedKeys db realm accountId ↔
      ∃ row, db.records.get? key = some row ∧ doomed db realm accountId key row = true := by
  simp only [doomedKeys, List.mem_map, List.mem_filter, Prod.exists]
  constructor
  · rintro ⟨key', row, ⟨hmem, hdoomed⟩, rfl⟩
    exact ⟨row, OrderedMap.mem_entries_iff.mp hmem, hdoomed⟩
  · rintro ⟨row, hget, hdoomed⟩
    exact ⟨key, row, ⟨OrderedMap.mem_entries_iff.mpr hget, hdoomed⟩, rfl⟩

theorem rowLocked_of_marked {s : State} {i : Nat} {t : Txn} (ht : s.txns.get? i = some t)
    {key : Key} (hkey : key ∈ t.marked) : s.rowLocked key = true := by
  simp only [State.rowLocked, List.any_eq_true]
  exact ⟨(i, t), OrderedMap.mem_entries_iff.mpr ht, by simpa using hkey⟩

theorem consumeStatement_kept {s : State} {now : Instant} {k key : Key} {row : OidcRow} {db : Db}
    (hlock : s.rowLocked key = true) (hrow : s.db.records.get? key = some row)
    (hfree : ¬ s.consumeBlocked now k = true) (h : consumeStatement s.db now k = some db) :
    db.records.get? key = some row := by
  obtain ⟨row', -, -, -, rfl⟩ := consumeStatement_eq_some h
  by_cases hk : key = k
  · subst hk
    exact absurd (by simp [State.consumeBlocked, h, hlock]) hfree
  · rw [OrderedMap.get?_set_of_ne _ hk, hrow]

/-- No statement changes a row that a transaction has deleted: it waits. -/
theorem statement_locked {s : State} {now : Instant} {st : Statement} {db : Db} {o : Outcome}
    {key : Key} {row : OidcRow} (hlock : s.rowLocked key = true)
    (hrow : s.db.records.get? key = some row) (h : statement s now st = some (db, o)) :
    db.records.get? key = some row := by
  have hmem := OrderedMap.mem_entries_iff.mpr hrow
  rcases statement_cases h with ⟨e, rfl, -⟩ | h
  · exact hrow
  cases st with
  | upsert k payload expiresIn =>
    simp only [execute] at h
    split at h
    · cases h
    · rename_i hblocked
      split at h
      · cases h
        exact hrow
      · rename_i db' hup
        cases h
        obtain ⟨new, hwritten, rfl⟩ := upsert_eq_ok hup
        obtain ⟨owner, hsec, -⟩ := hwritten.security
        by_cases hk : key = k
        · subst hk
          refine absurd ?_ hblocked
          have htarget : s.targetBlocked now key payload = true := by
            simp only [State.targetBlocked, hsec, Option.isSome_some, Bool.true_and,
              List.any_eq_true]
            exact ⟨(key, row), hmem, by simp [hlock]⟩
          simp [State.upsertBlocked, htarget]
        · rw [OrderedMap.get?_set_of_ne _ hk, hrow]
  | find =>
    cases h
    exact hrow
  | consume k =>
    simp only [execute, consume] at h
    split at h
    · cases h
    · rename_i hfree
      cases hc : consumeStatement s.db now k with
      | none =>
        simp only [hc] at h
        cases h
        exact hrow
      | some db' =>
        simp only [hc] at h
        cases h
        exact consumeStatement_kept hlock hrow hfree hc
  | claimInitialAccessToken realm id =>
    simp only [execute, claimInitialAccessToken] at h
    split at h
    · cases h
    · rename_i hfree
      cases hc : consumeStatement s.db now ⟨realm, "InitialAccessToken", id⟩ with
      | none =>
        simp only [hc] at h
        cases h
        exact hrow
      | some db' =>
        simp only [hc] at h
        cases h
        exact consumeStatement_kept hlock hrow hfree hc
  | destroy k =>
    simp only [execute] at h
    split at h
    · cases h
    · rename_i hfree
      cases h
      have hk : key ≠ k := by
        rintro rfl
        simp [hrow, hlock] at hfree
      rw [destroy, OrderedMap.get?_erase_of_ne _ hk, hrow]
  | revokeByGrantId realm model grantId =>
    simp only [execute] at h
    split at h
    · cases h
    · rename_i hfree
      cases h
      simp only [List.any_eq_true, not_exists, not_and] at hfree
      have hother := hfree (key, row) hmem
      simp only [hlock, Bool.and_true] at hother
      rw [revokeByGrantId, OrderedMap.get?_filter, hrow]
      simpa [Option.filter] using hother
  | cleanupExpired keys =>
    cases h
    simp [OrderedMap.get?_filter, hrow, Option.filter, hlock]
  | setUser realm u row' =>
    simp only [execute] at h
    split at h
    · cases h
    · obtain ⟨slot, -, heq⟩ := Option.map_eq_some_iff.mp h
      cases heq
      exact hrow

/-- The rows that a transaction has deleted are still as they were at that time, and no
other transaction has deleted them. -/
structure Frozen (s : State) : Prop where
  rows : ∀ {i t keys}, s.txns.get? i = some t → t.revoked? = some keys →
    ∃ db, keys = doomedKeys db t.realm t.accountId ∧
      ∀ key ∈ keys, s.db.records.get? key = db.records.get? key
  disjoint : ∀ {i j t t' key}, s.txns.get? i = some t → s.txns.get? j = some t' →
    key ∈ t.marked → key ∈ t'.marked → i = j

theorem frozen_initial (users : String → Uuid → Slot) : Frozen (.initial users) where
  rows h := by cases h
  disjoint h := by cases h

theorem Frozen.present {s : State} (hf : Frozen s) {i : Nat} {t : Txn}
    (ht : s.txns.get? i = some t) {key : Key} (hkey : key ∈ t.marked) :
    ∃ row, s.db.records.get? key = some row ∧
      doomed s.db t.realm t.accountId key row = true := by
  cases hr : t.revoked? with
  | none => simp [Txn.marked, hr] at hkey
  | some keys =>
    simp only [Txn.marked, hr, Option.getD_some] at hkey
    obtain ⟨db, rfl, hsame⟩ := hf.rows ht hr
    obtain ⟨row, hrow, hdoomed⟩ := mem_doomedKeys.mp hkey
    refine ⟨row, by rw [hsame key hkey, hrow], ?_⟩
    simp only [doomed, Bool.and_eq_true, Bool.or_eq_true, decide_eq_true_eq] at hdoomed ⊢
    refine ⟨hdoomed.1, hdoomed.2.imp_right fun hgrant => ?_⟩
    cases hg : row.grantId with
    | none => simp [hg] at hgrant
    | some g =>
      simp only [hg] at hgrant ⊢
      -- the Grant is one of the deleted rows, so it is still there too
      have hmem : (⟨t.realm, "Grant", g⟩ : Key) ∈ doomedKeys db t.realm t.accountId := by
        unfold accountGrant at hgrant
        split at hgrant
        · cases hgrant
        · rename_i grant hget
          exact mem_doomedKeys.mpr ⟨grant, hget, by simpa [doomed] using .inl (of_decide_eq_true hgrant)⟩
      unfold accountGrant at hgrant ⊢
      rw [hsame _ hmem]
      exact hgrant

/-- A row that an open transaction has deleted is unchanged by every step but the end of
that transaction. -/
theorem Frozen.kept {s s' : State} {e : Instant × Action} {o : Outcome} (hf : Frozen s)
    (h : step s e = some (s', o)) {i : Nat} {t t' : Txn} (ht : s.txns.get? i = some t)
    (ht' : s'.txns.get? i = some t') {key : Key} (hkey : key ∈ t.marked) :
    s'.db.records.get? key = s.db.records.get? key := by
  obtain ⟨row, hrow, -⟩ := hf.present ht hkey
  have hlock := rowLocked_of_marked ht hkey
  obtain ⟨now, action⟩ := e
  cases action with
  | run st =>
    simp only [Postgres.step, Option.map_eq_some_iff, Prod.exists, Prod.mk.injEq] at h
    obtain ⟨db, o', hst, rfl, rfl⟩ := h
    exact (statement_locked hlock hrow hst).trans hrow.symm
  | start kind realm accountId =>
    obtain ⟨-, hdb, -⟩ := start_moves h
    rw [hdb]
  | txn j a =>
    obtain ⟨tj, htj, hstep⟩ := Option.bind_eq_some_iff.mp h
    cases stepTxn_moves hstep with
    | advanced hs' | rolledBack _ hs' =>
      rw [hs']
      rfl
    | committed ha hslot hs' =>
      rw [hs'] at ht' ⊢
      have hij : i ≠ j := by
        rintro rfl
        simp [State.endTxn] at ht'
      have hother : key ∉ tj.marked := fun hm => hij (hf.disjoint ht htj hkey hm)
      change (s.db.records.filter fun key _ => !tj.marked.contains key).get? key = _
      rw [OrderedMap.get?_filter, hrow]
      simp [Option.filter, hother]

theorem Frozen.step {s s' : State} {e : Instant × Action} {o : Outcome} (hf : Frozen s)
    (h : step s e = some (s', o)) : Frozen s' := by
  -- what a transaction has deleted after the step, it had deleted before, or deletes now
  have hold : ∀ {i t'}, s'.txns.get? i = some t' → t'.revoked? = none ∨
      ∃ t, s.txns.get? i = some t ∧ t'.realm = t.realm ∧ t'.accountId = t.accountId ∧
        (t'.revoked? = t.revoked? ∨ (e.2 = .txn i .revoke ∧ s'.db = s.db ∧
          t'.revoked? = some (doomedKeys s.db t.realm t.accountId) ∧
          ∀ key ∈ doomedKeys s.db t.realm t.accountId, s.rowLocked key = false)) := by
    intro i t' ht'
    rcases step_txns h ht' with
      ⟨t, ht, hsame | ⟨hadvance, a, he, hdb, hrevokes⟩⟩ | ⟨-, -, -, hstage, -⟩
    · subst hsame
      exact .inr ⟨t', ht, rfl, rfl, .inl rfl⟩
    · refine .inr ⟨t, ht, hadvance.realm, hadvance.accountId, ?_⟩
      cases hrevokes with
      | revoke _ hnew hfree => exact .inr ⟨he, hdb, hnew, hfree⟩
      | other _ hsame => exact .inl hsame
    · exact .inl (by simp [Txn.revoked?, hstage])
  constructor
  · intro i t' keys ht' hkeys
    rcases hold ht' with hnone | ⟨t, ht, hrealm, hacc, hsame | ⟨-, hdb, hnew, -⟩⟩
    · rw [hnone] at hkeys
      cases hkeys
    · rw [hsame] at hkeys
      obtain ⟨db, hdb, hrows⟩ := hf.rows ht hkeys
      refine ⟨db, by rw [hrealm, hacc, hdb], fun key hkey => ?_⟩
      rw [hf.kept h ht ht' (by simpa [Txn.marked, hkeys] using hkey), hrows key hkey]
    · rw [hnew] at hkeys
      cases hkeys
      exact ⟨s.db, by rw [hrealm, hacc], fun key _ => by rw [hdb]⟩
  · intro i j t₁ t₂ key h₁ h₂ hk₁ hk₂
    have hmarked : ∀ {i t'}, s'.txns.get? i = some t' → key ∈ t'.marked →
        (∃ t, s.txns.get? i = some t ∧ key ∈ t.marked) ∨
          (e.2 = .txn i .revoke ∧ s.rowLocked key = false) := by
      intro i t' ht' hk
      rcases hold ht' with hnone | ⟨t, ht, -, -, hsame | ⟨he, -, hnew, hfree⟩⟩
      · simp [Txn.marked, hnone] at hk
      · exact .inl ⟨t, ht, by simpa [Txn.marked, hsame] using hk⟩
      · exact .inr ⟨he, hfree key (by simpa [Txn.marked, hnew] using hk)⟩
    rcases hmarked h₁ hk₁ with ⟨t, ht, hk⟩ | ⟨he, hfree⟩
    · rcases hmarked h₂ hk₂ with ⟨t', ht', hk'⟩ | ⟨-, hfree⟩
      · exact hf.disjoint ht ht' hk hk'
      · rw [rowLocked_of_marked ht hk] at hfree
        cases hfree
    · rcases hmarked h₂ hk₂ with ⟨t', ht', hk'⟩ | ⟨he', -⟩
      · rw [rowLocked_of_marked ht' hk'] at hfree
        cases hfree
      · rw [he] at he'
        cases he'
        rfl

/-! ## What was saved before the mutation, and the transaction itself -/

/-- What was saved no later than step `n` carries no version of the account above `V`. -/
structure Old (realm : String) (u : Uuid) (n V : Nat) (s : State) : Prop where
  later : n < s.tick
  row : ∀ {key row}, s.db.records.get? key = some row → key.realm = realm →
    row.account? = some u → row.saved ≤ n → ∃ v, row.accountSecurityVersion = some v ∧ v ≤ V

theorem Old.step {realm : String} {u : Uuid} {n V : Nat} {s s' : State} {e : Instant × Action}
    {o : Outcome} (hold : Old realm u n V s) (h : step s e = some (s', o)) :
    Old realm u n V s' where
  later := by
    rw [(step_moves h).2]
    exact Nat.lt_succ_of_lt hold.later
  row {key row} hr hrealm hu hle := by
    rcases step_row h hr with ⟨row₀, hr₀, hsame⟩ | hborn
    · rw [hsame.account?] at hu
      rw [hsame.saved] at hle
      rw [hsame.version]
      exact hold.row hr₀ hrealm hu hle
    · have := hold.later
      have := hborn.saved
      omega

theorem Sound.old {realm : String} {u : Uuid} {n : Nat} {s : State} {row : Account} (hs : Sound s)
    (hn : n < s.tick) (hrow : s.db.users realm u = .live row) :
    Old realm u n row.securityVersion s where
  later := hn
  row {key r} hr hrealm hu _ := by
    obtain ⟨v, hv, hseen⟩ := hs.bound hr hu
    rw [hrealm, hrow] at hseen
    exact ⟨v, hv, hseen⟩

/-- Transaction `n` is the mutation, if it is open: it has found version `V`, and once it
has changed the account its version is newer. -/
structure Held (n : Nat) (kind : Kind) (realm accountId : String) (u : Uuid) (V : Nat)
    (s : State) : Prop where
  later : n < s.tick
  txn : ∀ {t}, s.txns.get? n = some t → t.kind = kind ∧ t.realm = realm ∧
    t.accountId = accountId ∧ t.user = u ∧ V ≤ t.row.securityVersion ∧
    (kind = .mutate → t.stage ≠ .begun → V < t.row.securityVersion)

theorem Held.step {n : Nat} {kind : Kind} {realm accountId : String} {u : Uuid} {V : Nat}
    {s s' : State} {e : Instant × Action} {o : Outcome}
    (hheld : Held n kind realm accountId u V s) (h : step s e = some (s', o)) :
    Held n kind realm accountId u V s' where
  later := by
    rw [(step_moves h).2]
    exact Nat.lt_succ_of_lt hheld.later
  txn {t'} ht' := by
    rcases step_txns h ht' with ⟨t, ht, hsame | ⟨hadvance, -⟩⟩ | ⟨hn, -⟩
    · subst hsame
      exact hheld.txn ht
    · obtain ⟨hkind, hrealm, hacc, hu, hle, hlt⟩ := hheld.txn ht
      refine ⟨hadvance.kind.trans hkind, hadvance.realm.trans hrealm,
        hadvance.accountId.trans hacc, hadvance.user.trans hu, Nat.le_trans hle hadvance.le,
        fun hm hstage => ?_⟩
      by_cases hb : t.stage = .begun
      · rcases hadvance.bumped (hkind.trans hm) hb with hb' | hgt
        · exact absurd hb' hstage
        · exact Nat.lt_of_le_of_lt hle hgt
      · exact Nat.lt_of_lt_of_le (hlt hm hb) hadvance.le
    · have := hheld.later
      omega

/-- Transaction `n`, if it is open, has deleted these rows. -/
structure Deleted (n : Nat) (keys : List Key) (s : State) : Prop where
  later : n < s.tick
  txn : ∀ {t}, s.txns.get? n = some t → t.revoked? = some keys

theorem Deleted.step {n : Nat} {keys : List Key} {s s' : State} {e : Instant × Action}
    {o : Outcome} (hd : Deleted n keys s) (h : step s e = some (s', o)) : Deleted n keys s' where
  later := by
    rw [(step_moves h).2]
    exact Nat.lt_succ_of_lt hd.later
  txn {t'} ht' := by
    rcases step_txns h ht' with ⟨t, ht, hsame | ⟨-, a, -, -, hrevokes⟩⟩ | ⟨hn, -⟩
    · subst hsame
      exact hd.txn ht
    · cases hrevokes with
      | revoke hnone =>
        rw [hd.txn ht] at hnone
        cases hnone
      | other _ hsame => rw [hsame, hd.txn ht]
    · have := hd.later
      omega

/-! ## Runs -/

/-- What changes from a state to a later one: rows are written under new stamps, and users
move forwards. -/
structure Grown (s s' : State) : Prop where
  tick : s.tick ≤ s'.tick
  rows : ∀ {key row'}, s'.db.records.get? key = some row' →
    (∃ row, s.db.records.get? key = some row ∧ row.Same row') ∨ s.tick ≤ row'.saved
  users : ∀ realm u,
    Cell.Le Account.securityVersion (s.db.users realm u) (s'.db.users realm u)

theorem Grown.refl (s : State) : Grown s s :=
  ⟨Nat.le_refl _, fun h => .inl ⟨_, h, .refl _⟩, fun _ _ => .refl _⟩

theorem Grown.trans {s s' s'' : State} (h : Grown s s') (h' : Grown s' s'') : Grown s s'' where
  tick := Nat.le_trans h.tick h'.tick
  rows hr := by
    rcases h'.rows hr with ⟨row', hr', hsame'⟩ | hle
    · rcases h.rows hr' with ⟨row, hr, hsame⟩ | hle
      · exact .inl ⟨row, hr, hsame.trans hsame'⟩
      · exact .inr (by rw [hsame'.saved]; exact hle)
    · exact .inr (Nat.le_trans h.tick hle)
  users realm u := (h.users realm u).trans (h'.users realm u)

theorem Sound.grown {s s' : State} {e : Instant × Action} {o : Outcome} (hs : Sound s)
    (h : Postgres.step s e = some (s', o)) : Grown s s' where
  tick := by
    rw [(step_moves h).2]
    exact Nat.le_succ _
  rows hr := (step_row h hr).imp_right fun hborn => Nat.le_of_eq hborn.saved.symm
  users := hs.users h

section Runs

variable {C : State → Instant × Action → Prop} {s s' : State}
  {tr : List ((Instant × Action) × Outcome)}

theorem Sound.run (hs : Sound s) (h : Transition.Run Postgres.step C s tr s') : Sound s' :=
  h.invariant (fun _ _ _ _ hs _ h => hs.step h) hs

theorem Frozen.run (hf : Frozen s) (h : Transition.Run Postgres.step C s tr s') : Frozen s' :=
  h.invariant (fun _ _ _ _ hf _ h => hf.step h) hf

theorem Sound.grown_run (hs : Sound s) (h : Transition.Run Postgres.step C s tr s') : Grown s s' :=
  h.relates_of_invariant .refl (fun _ _ _ => .trans) (fun _ _ _ _ hs _ h => hs.step h)
    (fun _ _ _ _ hs _ h => hs.grown h) hs

end Runs

/-! ## Mutations -/

/-- An applied `mutateAccountSecurity` or `deleteAccount` in a run, with anything between
its statements: its transaction starts in `s₀`, it runs `revokeAccountSql` in `r`, and it
has committed in `f`. The user is `u`, and `accountId` is the text that the caller has
for it. -/
inductive Mutation (kind : Kind) (realm accountId : String) (u : Uuid) :
    State → State → State → Prop
  | intro {s₀ s₁ r r₁ f₁ f : State} {e₀ e₁ e₂ : Instant × Action} {o : Outcome}
      {tr₁ tr₂ : List ((Instant × Action) × Outcome)} (hu : Uuid.parse accountId = some u)
      (he₀ : e₀.2 = .start kind realm accountId) (hstart : step s₀ e₀ = some (s₁, .begun))
      (hrun₁ : Transition.Run step Transition.Always s₁ tr₁ r)
      (he₁ : e₁.2 = .txn s₀.tick .revoke) (hrevoke : step r e₁ = some (r₁, o))
      (hrun₂ : Transition.Run step Transition.Always r₁ tr₂ f₁)
      (he₂ : e₂.2 = .txn s₀.tick .commit) (hcommit : step f₁ e₂ = some (f, .committed)) :
      Mutation kind realm accountId u s₀ r f

/-- What holds in every state after a mutation that started in `s₀` and revoked in `r`. -/
structure After (realm accountId : String) (u : Uuid) (s₀ r s : State) : Prop where
  order : s₀.tick < r.tick
  started : ∀ {key row}, s.db.records.get? key = some row → row.saved ≤ s₀.tick →
    ∃ row₀, s₀.db.records.get? key = some row₀ ∧ row₀.Same row
  survived : ∀ {key row}, s.db.records.get? key = some row → row.saved ≤ r.tick →
    ∃ row₀, r.db.records.get? key = some row₀ ∧ row₀.Same row ∧
      doomed r.db realm accountId key row₀ = false
  versions : ∃ V, Old realm u s₀.tick V s ∧ Past (s.db.users realm u) V

/-- The transaction that has just started. -/
theorem start_begun {s s' : State} {e : Instant × Action} {kind : Kind} {realm accountId : String}
    {u : Uuid} (hu : Uuid.parse accountId = some u) (he : e.2 = .start kind realm accountId)
    (h : step s e = some (s', .begun)) :
    ∃ row, s.db.users realm u = .live row ∧ s'.db = s.db ∧ s'.tick = s.tick + 1 ∧
      s'.txns = s.txns.set s.tick ⟨kind, realm, accountId, u, row, .begun⟩ := by
  simp only [step, he, start] at h
  split at h
  · cases h
  · rename_i u' hcheck
    obtain rfl : u' = u := Option.some.inj ((parse_of_checkAccount hcheck).symm.trans hu)
    split at h
    · cases h
    · rename_i row hrow
      split at h
      · cases h
      · cases h
        exact ⟨row, Cell.value?_eq_some.mp hrow, rfl, rfl, rfl⟩

theorem step_txn {s s' : State} {e : Instant × Action} {n : Nat} {a : TxnStep} {o : Outcome}
    (he : e.2 = .txn n a) (h : step s e = some (s', o)) :
    ∃ t, s.txns.get? n = some t ∧ TxnMoves s s' n t a o := by
  simp only [step, he] at h
  obtain ⟨t, ht, hstep⟩ := Option.bind_eq_some_iff.mp h
  exact ⟨t, ht, stepTxn_moves hstep⟩

theorem Mutation.after {kind : Kind} {realm accountId : String} {u : Uuid} {s₀ r f s : State}
    {tr : List ((Instant × Action) × Outcome)} (hm : Mutation kind realm accountId u s₀ r f)
    (hs₀ : Sound s₀) (hrun : Transition.Run step Transition.Always f tr s) :
    After realm accountId u s₀ r s := by
  obtain ⟨hu, he₀, hstart, hrun₁, he₁, hrevoke, hrun₂, he₂, hcommit⟩ := hm
  rename_i s₁ r₁ f₁ e₀ e₁ e₂ o tr₁ tr₂
  obtain ⟨row, hrow, hdb₁, htick₁, htxns₁⟩ := start_begun hu he₀ hstart
  -- the states are sound
  have hs₁ := hs₀.step hstart
  have hr := hs₁.run hrun₁
  have hr₁ := hr.step hrevoke
  have hf₁ := hr₁.run hrun₂
  have hf := hf₁.step hcommit
  have hg₁ := hs₁.grown_run hrun₁
  have hg₂ := hr₁.grown_run hrun₂
  have hg₃ := (hf₁.grown hcommit).trans (hf.grown_run hrun)
  have htick_r₁ := (step_moves hrevoke).2
  have htick_f := (step_moves hcommit).2
  -- what is old when the mutation starts stays old
  have hold₁ : Old realm u s₀.tick row.securityVersion s₁ :=
    hs₁.old (by omega) (by rw [hdb₁, hrow])
  have hold : Old realm u s₀.tick row.securityVersion s := by
    have h1 := hrun₁.invariant (fun _ _ _ _ hI _ h => Old.step hI h) hold₁
    have h2 := hrun₂.invariant (fun _ _ _ _ hI _ h => Old.step hI h) (h1.step hrevoke)
    exact hrun.invariant (fun _ _ _ _ hI _ h => Old.step hI h) (h2.step hcommit)
  -- the transaction
  have hheld₁ : Held s₀.tick kind realm accountId u row.securityVersion s₁ := by
    refine ⟨by omega, fun {t} ht => ?_⟩
    rw [htxns₁, OrderedMap.get?_set_self] at ht
    cases ht
    exact ⟨rfl, rfl, rfl, rfl, Nat.le_refl _, fun _ hb => absurd rfl hb⟩
  have hheld_r := hrun₁.invariant (fun _ _ _ _ hI _ h => Held.step hI h) hheld₁
  have hheld_f₁ := hrun₂.invariant (fun _ _ _ _ hI _ h => Held.step hI h) (hheld_r.step hrevoke)
  obtain ⟨hdb_r₁, hdel_r₁⟩ : r₁.db = r.db ∧
      Deleted s₀.tick (doomedKeys r.db realm accountId) r₁ := by
    obtain ⟨t, ht, hmoves⟩ := step_txn he₁ hrevoke
    obtain ⟨-, hrealm, hacc, -⟩ := hheld_r.txn ht
    cases hmoves with
    | advanced hs' _ hrevokes =>
      cases hrevokes with
      | other ha => exact absurd rfl ha
      | revoke _ hnew =>
        refine ⟨by rw [hs']; rfl, (hheld_r.step hrevoke).later, fun {t'} ht' => ?_⟩
        rw [hs', State.setTxn, OrderedMap.get?_set_self] at ht'
        cases ht'
        rw [hnew, hrealm, hacc]
    | rolledBack ha => cases ha
    | committed ha => cases ha
  have hdel_f₁ := hrun₂.invariant (fun _ _ _ _ hI _ h => Deleted.step hI h) hdel_r₁
  obtain ⟨hpast, hkept⟩ : Past (f.db.users realm u) row.securityVersion ∧
      ∀ {key row}, f.db.records.get? key = some row → f₁.db.records.get? key = some row ∧
        key ∉ doomedKeys r.db realm accountId := by
    obtain ⟨t, ht, hmoves⟩ := step_txn he₂ hcommit
    obtain ⟨hkind, hrealm, -, huser, -, hlt⟩ := hheld_f₁.txn ht
    cases hmoves with
    | advanced _ _ _ ho => exact absurd rfl ho
    | rolledBack _ _ ho => exact absurd rfl ho
    | committed ha hslot hs' =>
      rename_i slot
      constructor
      · rw [hs']
        change Past ((f₁.db.withUser t.realm t.user slot).users realm u) _
        rw [withUser_users, if_pos ⟨hrealm.symm, huser.symm⟩]
        rcases hslot with rfl | ⟨rfl, hmutate, hstage⟩
        · trivial
        · exact hlt (hkind.symm.trans hmutate) hstage
      · intro key row' hget
        rw [hs'] at hget
        change (f₁.db.records.filter fun key _ => !t.marked.contains key).get? key = _ at hget
        rw [OrderedMap.get?_filter] at hget
        obtain ⟨hget, hp⟩ := Option.filter_eq_some_iff.mp hget
        refine ⟨hget, ?_⟩
        simpa [Txn.marked, hdel_f₁.txn ht] using hp
  have horder := hg₁.tick
  have horder' := hg₂.tick
  have horder'' := hg₃.tick
  refine ⟨by omega, ?_, ?_, row.securityVersion, hold, hpast.mono ((hf.grown_run hrun).users _ _)⟩
  · intro key row' hget hle
    have hg := hg₁.trans ((hr.grown hrevoke).trans (hg₂.trans hg₃))
    rcases hg.rows hget with ⟨row₁, hrow₁, hsame⟩ | hlt
    · exact ⟨row₁, by rw [← hdb₁, hrow₁], hsame⟩
    · omega
  · intro key row' hget hle
    rcases (hf.grown_run hrun).rows hget with ⟨row_f, hrow_f, hsame_f⟩ | hlt
    · obtain ⟨hrow_f₁, hspared⟩ := hkept hrow_f
      have hsaved := hsame_f.saved
      rcases hg₂.rows hrow_f₁ with ⟨row₀, hrow₀, hsame⟩ | hlt
      · rw [hdb_r₁] at hrow₀
        refine ⟨row₀, hrow₀, hsame.trans hsame_f, ?_⟩
        by_contra hdoomed
        exact hspared (mem_doomedKeys.mpr ⟨row₀, hrow₀, by simpa using hdoomed⟩)
      · omega
    · omega

/-! ## The law -/

section Law

variable {kind : Kind} {realm accountId : String} {u : Uuid} {s₀ r s s' : State}
  {e : Instant × Action}

/-- **No revoked artifact is found.** What a query returns after the mutation was saved
after the mutation started, if it is bound to the account itself; and if it is bound to a
Grant that the mutation has revoked, it was saved after the revocation. -/
theorem After.found (h : After realm accountId u s₀ r s) {key : Key} {row : OidcRow}
    (hstep : step s e = some (s', .found (some (key, row)))) (hrealm : key.realm = realm) :
    (row.account? = some u → s₀.tick < row.saved) ∧
      ∀ g, row.grantId = some g → accountGrant r.db realm accountId g = true →
        r.tick < row.saved := by
  obtain ⟨realm', model, column, -, hfind, -⟩ := step_eq_found hstep
  obtain ⟨hget, hkey, -, -, -, hcurrent⟩ := findBy_eq_some hfind
  obtain rfl : realm' = realm := hkey.symm.trans hrealm
  obtain ⟨V, hold, hpast⟩ := h.versions
  refine ⟨fun hacc => ?_, fun g hg hgrant => ?_⟩
  · by_contra hle
    obtain ⟨v, hv, hvV⟩ := hold.row hget hkey hacc (Nat.le_of_not_lt hle)
    unfold accountCurrent at hcurrent
    simp only [hv] at hcurrent
    rw [OidcRow.account?] at hacc
    rw [hacc, Option.bind_some] at hcurrent
    cases huser : s.db.enabledUser realm' u with
    | none => simp [huser] at hcurrent
    | some user =>
      simp only [huser, decide_eq_true_eq] at hcurrent
      have := lt_of_past (v := v) hpast (Option.map_eq_some_iff.mpr ⟨user, huser, hcurrent⟩)
      omega
  · by_contra hle
    obtain ⟨row₀, -, hsame, hspared⟩ := h.survived hget (Nat.le_of_not_lt hle)
    rw [hsame.grantId] at hg
    simp [doomed, hkey, hg, hgrant] at hspared

/-- **No save under a revoked Grant.** If an `upsert` succeeds after the mutation with the
identifier of a Grant that the account had when the mutation started, that Grant has been
saved again since. -/
theorem After.saved (h : After realm accountId u s₀ r s) {key : Key} {payload : Payload}
    {expiresIn : Option Int} (he : e.2 = .run (.upsert key payload expiresIn))
    (hstep : step s e = some (s', .done)) (hrealm : key.realm = realm) {g : String}
    (hg : payload.grantId = some g) {grant₀ : OidcRow}
    (hgrant : s₀.db.records.get? ⟨realm, "Grant", g⟩ = some grant₀)
    (hacc : grant₀.account? = some u) :
    ∃ grant, s.db.records.get? ⟨realm, "Grant", g⟩ = some grant ∧ s₀.tick < grant.saved := by
  have hborn : ∃ row, row.grantId = some g ∧ Born s e.2 key row := by
    obtain ⟨now, a⟩ := e
    obtain rfl : a = .run (.upsert key payload expiresIn) := he
    cases step_change hstep key with
    | kept _ _ hs => simp [saves] at hs
    | removed _ _ hs => simp [saves] at hs
    | redeemed _ _ _ hs => simp [saves] at hs
    | saved hup =>
      obtain ⟨row, hwritten, -⟩ := upsert_eq_ok hup
      exact ⟨row, by rw [hwritten.grantId, hg], born_of_upsert hwritten _⟩
  obtain ⟨row, hrow, hborn⟩ := hborn
  obtain ⟨grant, u', v, hget, htext, hversion, henabled⟩ := hborn.grant hrow
  rw [hrealm] at hget henabled
  refine ⟨grant, hget, ?_⟩
  by_contra hle
  -- otherwise the row is still the one from before the mutation, at its old version
  obtain ⟨grant₁, hget₁, hsame⟩ := h.started hget (Nat.le_of_not_lt hle)
  cases hgrant.symm.trans hget₁
  have hacc' : grant.account? = some u := by rw [hsame.account?, hacc]
  obtain rfl : u' = u := by
    rw [OidcRow.account?, htext, Option.bind_some, Uuid.parse_text] at hacc'
    exact Option.some.inj hacc'
  obtain ⟨V, hold, hpast⟩ := h.versions
  obtain ⟨v', hv', hvV⟩ := hold.row hget rfl hacc' (Nat.le_of_not_lt hle)
  cases hversion.symm.trans hv'
  have := lt_of_past hpast henabled
  omega

/-! ## What a mutation leaves alone -/

/-- A step of a mutation of this account. -/
inductive MutationStep (realm accountId : String) (u : Uuid) (s : State) (e : Instant × Action) :
    Prop
  | start {kind : Kind} (he : e.2 = .start kind realm accountId)
  | txn {n : Nat} {a : TxnStep} {t : Txn} (he : e.2 = .txn n a) (ht : s.txns.get? n = some t)
      (hrealm : t.realm = realm) (hacc : t.accountId = accountId) (hu : t.user = u)

/-- What a step of the mutation can change: the user, and rows that it revokes. -/
structure Frame (realm accountId : String) (u : Uuid) (db db' : Db) : Prop where
  users : ∀ r v, ¬ (r = realm ∧ v = u) → db'.users r v = db.users r v
  records : ∃ kept : Key → Bool, db'.records = db.records.filter (fun key _ => kept key) ∧
    ∀ key row, db.records.get? key = some row → doomed db realm accountId key row = false →
      kept key = true

theorem Frame.refl (db : Db) : Frame realm accountId u db db := by
  refine ⟨fun _ _ _ => rfl, fun _ => true, ?_, fun _ _ _ _ => rfl⟩
  simp [OrderedMap.filter]

theorem MutationStep.frame (h : MutationStep realm accountId u s e) (hf : Frozen s) {o : Outcome}
    (hstep : step s e = some (s', o)) : Frame realm accountId u s.db s'.db := by
  cases h with
  | start he =>
    obtain ⟨now, a⟩ := e
    obtain rfl : a = _ := he
    rw [(start_moves hstep).2.1]
    exact .refl _
  | txn he ht hrealm hacc hu =>
    rename_i n a t
    obtain ⟨t', ht', hmoves⟩ := step_txn he hstep
    obtain rfl : t = t' := Option.some.inj (ht.symm.trans ht')
    cases hmoves with
    | advanced hs' | rolledBack _ hs' =>
      rw [hs']
      exact .refl _
    | committed ha hslot hs' =>
      rw [hs']
      refine ⟨fun r v hne => ?_, fun key => !t.marked.contains key, rfl, ?_⟩
      · change (s.db.withUser t.realm t.user _).users r v = _
        rw [withUser_users, if_neg (by rw [hrealm, hu]; exact hne)]
      · intro key row hget hspared
        by_contra hmarked
        obtain ⟨row', hget', hdoomed⟩ := hf.present ht (by simpa using hmarked)
        cases hget.symm.trans hget'
        rw [hrealm, hacc, hspared] at hdoomed
        cases hdoomed

/-- At most one row matches a query, so the query finds it whenever it may be shown. -/
theorem findBy_eq_of_get? {db : Db} (hi : Indexed db) {now : Instant} {model : String} {c : Column}
    {key : Key} {row : OidcRow} (hget : db.records.get? key = some row) (hrealm : key.realm = realm)
    (hmodel : key.model = model) (hcol : holds c key row = true) (hlive : row.live now = true)
    (hcurrent : accountCurrent db realm row = true) :
    findBy db now realm model c = some (key, row) := by
  refine OrderedMap.findFirst?_eq_some hget (by simp [hrealm, hmodel, hcol, hlive, hcurrent]) ?_
  intro k row' hget' hp
  simp only [Bool.and_eq_true, decide_eq_true_eq] at hp
  obtain ⟨⟨⟨⟨hrealm', hmodel'⟩, hcol'⟩, -⟩, -⟩ := hp
  have hr : k.realm = key.realm := hrealm'.trans hrealm.symm
  have hm : k.model = key.model := hmodel'.trans hmodel.symm
  cases c with
  | id v =>
    simp only [holds, decide_eq_true_eq] at hcol hcol'
    exact Key.ext hr hm (hcol'.trans hcol.symm)
  | userCode v =>
    simp only [holds, decide_eq_true_eq] at hcol hcol'
    exact hi hget hget' hr hm (.inl ⟨by simp [hcol], by rw [hcol, hcol']⟩)
  | uid v =>
    simp only [holds, decide_eq_true_eq] at hcol hcol'
    exact hi hget hget' hr hm (.inr ⟨by simp [hcol], by rw [hcol, hcol']⟩)

/-- **What is not the account's stays as it was.** A row that the mutation does not revoke
is there after a step if and only if it was before; a query that finds a row of another
account, not bound to a Grant of this one, finds it after the step; and queries in other
realms are unchanged. -/
theorem Frame.queries {db db' : Db} (h : Frame realm accountId u db db') (hi : Indexed db') :
    (∀ key row, doomed db realm accountId key row = false →
      (db'.records.get? key = some row ↔ db.records.get? key = some row)) ∧
    (∀ now model c key row, findBy db now realm model c = some (key, row) →
      doomed db realm accountId key row = false → row.account? ≠ some u →
      findBy db' now realm model c = some (key, row)) ∧
    (∀ now other model c, other ≠ realm →
      findBy db' now other model c = findBy db now other model c) := by
  obtain ⟨kept, hrecords, hkept⟩ := h.records
  refine ⟨fun key row hspared => ?_, fun now model c key row hfind hspared hacc => ?_,
    fun now other model c hother => ?_⟩
  · rw [hrecords, OrderedMap.get?_filter, Option.filter_eq_some_iff]
    exact ⟨fun hb => hb.1, fun hget => ⟨hget, hkept key row hget hspared⟩⟩
  · obtain ⟨hget, hrealm, hmodel, hcol, hlive, hcurrent⟩ := findBy_eq_some hfind
    have hget' : db'.records.get? key = some row := by
      rw [hrecords, OrderedMap.get?_filter, hget]
      simp [Option.filter, hkept key row hget hspared]
    refine findBy_eq_of_get? hi hget' hrealm hmodel hcol hlive ?_
    rw [← hcurrent]
    unfold accountCurrent
    cases hv : row.accountSecurityVersion with
    | none => rfl
    | some v =>
      cases hu : row.payload.accountId.bind Uuid.parse with
      | none => rfl
      | some w =>
        have hw : w ≠ u := by
          rintro rfl
          exact hacc hu
        simp only [Option.bind_some, Db.enabledUser, h.users realm w fun hb => hw hb.2]
  · have hcurrent : accountCurrent db' other = accountCurrent db other := by
      have husers : db'.enabledUser other = db.enabledUser other := by
        funext w
        rw [Db.enabledUser, h.users other w fun hb => hother hb.1]
        rfl
      funext row
      simp only [accountCurrent, husers]
    simp only [findBy, hcurrent, hrecords]
    refine OrderedMap.findFirst?_filter_of_imp fun x hx hp => ?_
    have hkey : x.1.realm ≠ realm := by
      simp only [Bool.and_eq_true, decide_eq_true_eq] at hp
      rw [hp.1.1.1.1]
      exact hother
    exact hkept x.1 x.2 (OrderedMap.mem_entries_iff.mp hx) (by simp [doomed, hkey])

end Law

end AuthMe.Adapters.Postgres

import AuthMe.Adapters.PostgresRun

/-!
# What a step on PostgreSQL does

`step_change` says all that a step can do to one row, and `step_users` what it can do to
the users and the open transactions. The invariants are proved from the two, without
another look at the statements.
-/

namespace AuthMe.Adapters.Postgres

/-- Only the queries show a row, and they change nothing. -/
theorem step_eq_found {s s' : State} {e : Instant × Action} {r : Option (Key × OidcRow)}
    (h : step s e = some (s', .found r)) :
    ∃ realm model column, e.2 = .run (.find realm model column) ∧
      findBy s.db e.1 realm model column = r ∧ s'.db = s.db := by
  obtain ⟨now, action⟩ := e
  cases action with
  | run st =>
    simp only [step, Option.map_eq_some_iff, Prod.exists, Prod.mk.injEq] at h
    obtain ⟨db, o, hst, rfl, rfl⟩ := h
    replace hst := (statement_cases hst).resolve_left (by rintro ⟨e, -, ⟨⟩⟩)
    cases st with
    | find realm model column =>
      cases hst
      exact ⟨realm, model, column, rfl, rfl, rfl⟩
    | setUser realm u row =>
      simp only [execute] at hst
      split at hst
      · cases hst
      · obtain ⟨slot, -, hst⟩ := Option.map_eq_some_iff.mp hst
        cases hst
    | upsert | consume | claimInitialAccessToken | destroy | revokeByGrantId | cleanupExpired =>
      simp only [execute] at hst
      repeat' split at hst
      all_goals cases hst
  | start kind realm accountId =>
    simp only [step, start] at h
    repeat' split at h
    all_goals cases h
  | txn id a =>
    obtain ⟨t, -, ht⟩ := Option.bind_eq_some_iff.mp h
    cases a with
    | commit =>
      obtain ⟨db, -, heq⟩ := Option.map_eq_some_iff.mp ht
      cases heq
    | enable | bump | revoke | deleteUser | rollback =>
      simp only [stepTxn, revoke] at ht
      repeat' split at ht
      all_goals cases ht

/-! ## Users and transactions -/

/-- How a transaction changes before its end. -/
structure Txn.Advance (t t' : Txn) : Prop where
  kind : t'.kind = t.kind
  realm : t'.realm = t.realm
  accountId : t'.accountId = t.accountId
  user : t'.user = t.user
  le : t.row.securityVersion ≤ t'.row.securityVersion
  begun : t'.stage = .begun → t.stage = .begun
  bumped : t.kind = .mutate → t.stage = .begun → t'.stage = .begun ∨
    t.row.securityVersion < t'.row.securityVersion

/-- What a step makes of the rows that a transaction has deleted. -/
inductive Revokes (s : State) (t t' : Txn) : TxnStep → Prop
  | revoke (hold : t.revoked? = none)
      (hnew : t'.revoked? = some (doomedKeys s.db t.realm t.accountId))
      (hfree : ∀ key ∈ doomedKeys s.db t.realm t.accountId, s.rowLocked key = false) :
      Revokes s t t' .revoke
  | other {a} (ha : a ≠ .revoke) (hsame : t'.revoked? = t.revoked?) : Revokes s t t' a

/-- All that a step of transaction `id` can do. -/
inductive TxnMoves (s s' : State) (id : Nat) (t : Txn) (a : TxnStep) (o : Outcome) : Prop
  | advanced {t'} (hs' : s' = s.setTxn id t') (hadvance : t.Advance t')
      (hrevokes : Revokes s t t' a) (ho : o ≠ .committed)
  | rolledBack (ha : a = .rollback) (hs' : s' = s.endTxn id s.db) (ho : o ≠ .committed)
  | committed {slot} (ha : a = .commit)
      (hslot : slot = .retired ∨ (slot = .live t.row ∧ t.kind = .mutate ∧ t.stage ≠ .begun))
      (hs' : s' = s.endTxn id { s.db.withUser t.realm t.user slot with
        records := s.db.records.filter fun key _ => !t.marked.contains key })

/-- All that a step can do to the users and the open transactions. -/
inductive Moves (s s' : State) (e : Instant × Action) (o : Outcome) : Prop
  | still (hdb : s'.db.users = s.db.users) (htxns : s'.txns = s.txns) (ho : o ≠ .committed)
  | user {realm u row slot} (hfree : s.userLocked realm u = false)
      (hset : setUser (s.db.users realm u) row = some slot)
      (hdb : s'.db.users = (s.db.withUser realm u slot).users) (htxns : s'.txns = s.txns)
      (ho : o ≠ .committed)
  | started {kind realm accountId u row} (he : e.2 = .start kind realm accountId)
      (hu : Uuid.parse accountId = some u) (hrow : s.db.users realm u = .live row)
      (hfree : s.userLocked realm u = false) (hdb : s'.db = s.db)
      (htxns : s'.txns = s.txns.set s.tick ⟨kind, realm, accountId, u, row, .begun⟩)
      (ho : o = .begun)
  | txn {id t a} (he : e.2 = .txn id a) (ht : s.txns.get? id = some t)
      (h : TxnMoves s s' id t a o)

theorem statement_users {s : State} {now : Instant} {st : Statement} {db : Db} {o : Outcome}
    (h : statement s now st = some (db, o)) :
    o ≠ .committed ∧ (db.users = s.db.users ∨ ∃ realm u row slot, s.userLocked realm u = false ∧
      setUser (s.db.users realm u) row = some slot ∧ db = s.db.withUser realm u slot) := by
  have hconsume : ∀ {key db'}, consumeStatement s.db now key = some db' →
      db'.users = s.db.users := by
    intro key db' h
    obtain ⟨row, -, -, -, rfl⟩ := consumeStatement_eq_some h
    rfl
  rcases statement_cases h with ⟨e, rfl, rfl⟩ | h
  · exact ⟨nofun, .inl rfl⟩
  cases st with
  | upsert key payload expiresIn =>
    simp only [execute] at h
    split at h
    · cases h
    · split at h
      · cases h
        exact ⟨nofun, .inl rfl⟩
      · rename_i db' hup
        cases h
        obtain ⟨_, -, rfl⟩ := upsert_eq_ok hup
        exact ⟨nofun, .inl rfl⟩
  | consume key =>
    simp only [execute, consume] at h
    split at h
    · cases h
    · cases hc : consumeStatement s.db now key with
      | none =>
        simp only [hc] at h
        cases h
        exact ⟨nofun, .inl rfl⟩
      | some db' =>
        simp only [hc] at h
        cases h
        exact ⟨nofun, .inl (hconsume hc)⟩
  | claimInitialAccessToken realm id =>
    simp only [execute, claimInitialAccessToken] at h
    split at h
    · cases h
    · cases hc : consumeStatement s.db now ⟨realm, "InitialAccessToken", id⟩ with
      | none =>
        simp only [hc] at h
        cases h
        exact ⟨nofun, .inl rfl⟩
      | some db' =>
        simp only [hc] at h
        cases h
        exact ⟨nofun, .inl (hconsume hc)⟩
  | setUser realm u row =>
    simp only [execute] at h
    split at h
    · cases h
    · rename_i hfree
      obtain ⟨slot, hset, heq⟩ := Option.map_eq_some_iff.mp h
      cases heq
      exact ⟨nofun, .inr ⟨realm, u, row, slot, by simpa using hfree, hset, rfl⟩⟩
  | find | destroy | revokeByGrantId | cleanupExpired =>
    simp only [execute] at h
    repeat' split at h
    all_goals cases h
    all_goals exact ⟨nofun, .inl rfl⟩

theorem start_moves {s s' : State} {kind : Kind} {realm accountId : String}
    {o : Outcome} (h : start s kind realm accountId = some (s', o)) :
    (∀ now, Moves s s' (now, .start kind realm accountId) o) ∧ s'.db = s.db ∧ s'.tick = s.tick + 1 := by
  unfold start at h
  split at h
  · cases h
    exact ⟨fun _ => .still rfl rfl nofun, rfl, rfl⟩
  · rename_i u hcheck
    have hu := parse_of_checkAccount hcheck
    split at h
    · cases h
      exact ⟨fun _ => .still rfl rfl nofun, rfl, rfl⟩
    · rename_i row hrow
      split at h
      · cases h
      · rename_i hlock
        cases h
        exact ⟨fun _ => .started rfl hu (Epoch.Cell.value?_eq_some.mp hrow)
          (by simpa using hlock) rfl rfl rfl, rfl, rfl⟩

theorem stepTxn_moves {s s' : State} {i : Nat} {t : Txn} {a : TxnStep} {o : Outcome}
    (h : stepTxn s i t a = some (s', o)) : TxnMoves s s' i t a o := by
  cases a with
  | enable enabled =>
    simp only [stepTxn] at h
    split at h
    · rename_i hb
      cases h
      exact .advanced rfl ⟨rfl, rfl, rfl, rfl, Nat.le_refl _, id, fun _ _ => .inl hb.2⟩
        (.other nofun rfl) nofun
    · cases h
  | bump =>
    simp only [stepTxn] at h
    split at h
    · rename_i hb
      cases h
      exact .advanced rfl ⟨rfl, rfl, rfl, rfl, Nat.le_succ _, nofun,
        fun _ _ => .inr (Nat.lt_succ_self _)⟩ (.other nofun (by simp [Txn.revoked?, hb.2])) nofun
    · cases h
  | revoke =>
    simp only [stepTxn, revoke] at h
    split at h
    · cases h
    · rename_i hfree
      have hfree' : ∀ key ∈ doomedKeys s.db t.realm t.accountId, s.rowLocked key = false := by
        simpa using hfree
      split at h
      · rename_i hkind hstage
        cases h
        exact .advanced rfl ⟨rfl, rfl, rfl, rfl, Nat.le_refl _, nofun, by simp [hstage]⟩
          (.revoke (by simp [Txn.revoked?, hstage]) rfl hfree') nofun
      · rename_i hkind hstage
        cases h
        exact .advanced rfl ⟨rfl, rfl, rfl, rfl, Nat.le_refl _, nofun, by simp [hkind]⟩
          (.revoke (by simp [Txn.revoked?, hstage]) rfl hfree') nofun
      · cases h
  | deleteUser =>
    simp only [stepTxn] at h
    split at h
    · rename_i doomed hkind hstage
      cases h
      exact .advanced rfl ⟨rfl, rfl, rfl, rfl, Nat.le_refl _, nofun, by simp [hkind]⟩
        (.other nofun (by simp [Txn.revoked?, hstage])) nofun
    · cases h
  | commit =>
    obtain ⟨db, hdb, heq⟩ := Option.map_eq_some_iff.mp h
    cases heq
    unfold Postgres.committed at hdb
    obtain ⟨slot, hslot, rfl⟩ := Option.map_eq_some_iff.mp hdb
    refine .committed rfl ?_ rfl
    split at hslot
    · rename_i hkind hstage
      exact .inr ⟨(Option.some.inj hslot).symm, hkind, by simp [hstage]⟩
    · exact .inl (Option.some.inj hslot).symm
    · cases hslot
  | rollback =>
    cases h
    exact .rolledBack rfl rfl nofun

/-- A step of a transaction only removes rows. -/
theorem TxnMoves.records {s s' : State} {i : Nat} {t : Txn} {a : TxnStep} {o : Outcome}
    (h : TxnMoves s s' i t a o) :
    s'.db.records = s.db.records ∨
      s'.db.records = s.db.records.filter fun key _ => !t.marked.contains key := by
  cases h with
  | advanced hs' | rolledBack ha hs' =>
    rw [hs']
    exact .inl rfl
  | committed ha hslot hs' =>
    rw [hs']
    exact .inr rfl

theorem step_moves {s s' : State} {e : Instant × Action} {o : Outcome}
    (h : step s e = some (s', o)) : Moves s s' e o ∧ s'.tick = s.tick + 1 := by
  obtain ⟨now, action⟩ := e
  cases action with
  | run st =>
    simp only [step, Option.map_eq_some_iff, Prod.exists, Prod.mk.injEq] at h
    obtain ⟨db, o', hst, rfl, rfl⟩ := h
    refine ⟨?_, rfl⟩
    obtain ⟨ho, hsame | ⟨realm, u, row, slot, hfree, hset, rfl⟩⟩ := statement_users hst
    · exact .still hsame rfl ho
    · exact .user hfree hset rfl rfl ho
  | start kind realm accountId =>
    obtain ⟨hmoves, -, htick⟩ := start_moves h
    exact ⟨hmoves now, htick⟩
  | txn i a =>
    obtain ⟨t, ht, hstep⟩ := Option.bind_eq_some_iff.mp h
    have hmoves := stepTxn_moves hstep
    refine ⟨.txn rfl ht hmoves, ?_⟩
    cases hmoves with
    | advanced hs' | rolledBack ha hs' | committed ha hslot hs' =>
      rw [hs']
      rfl

/-! ## Rows -/

/-- The entry of a trace redeems the artifact. -/
def redeems (key : Key) : (Instant × Action) × Outcome → Bool
  | ((_, .run (.consume k)), .done) => k = key
  | ((_, .run (.claimInitialAccessToken realm id)), .claimed true) =>
    (⟨realm, "InitialAccessToken", id⟩ : Key) = key
  | _ => false

/-- The entry of a trace saves the artifact. -/
def saves (key : Key) : (Instant × Action) × Outcome → Bool
  | ((_, .run (.upsert k _ _)), .done) => k = key
  | _ => false

theorem redeems_failed (key : Key) (now : Instant) (st : Statement) (e : AdapterError) :
    redeems key ((now, .run st), .failed e) = false := by
  cases st <;> rfl

theorem saves_failed (key : Key) (now : Instant) (st : Statement) (e : AdapterError) :
    saves key ((now, .run st), .failed e) = false := by
  cases st <;> rfl

/-- All that a step can do to the row of a key. -/
inductive Change (key : Key) (s s' : State) : (Instant × Action) × Outcome → Prop
  | kept {x} (hrow : s'.db.records.get? key = s.db.records.get? key)
      (hr : redeems key x = false) (hs : saves key x = false) : Change key s s' x
  | removed {x} (hrow : s'.db.records.get? key = none)
      (hr : redeems key x = false) (hs : saves key x = false) : Change key s s' x
  | saved {now payload expiresIn}
      (h : upsert s.db now key payload expiresIn s.tick = .ok s'.db) :
      Change key s s' ((now, .run (.upsert key payload expiresIn)), .done)
  | redeemed {now action o row} (hrow : s.db.records.get? key = some row)
      (hfree : row.consumedAt = none)
      (hrow' : s'.db.records.get? key = some { row with consumedAt := some now.ms })
      (hs : saves key ((now, action), o) = false) : Change key s s' ((now, action), o)

/-- A step that only filters the rows keeps or removes each of them. -/
theorem change_of_filter {key : Key} {s s' : State} {p : Key → OidcRow → Bool}
    {x : (Instant × Action) × Outcome} (h : s'.db.records = s.db.records.filter p)
    (hr : redeems key x = false) (hs : saves key x = false) : Change key s s' x := by
  have hrow : s'.db.records.get? key = (s.db.records.get? key).filter (p key) := by
    rw [h, OrderedMap.get?_filter]
  cases hk : s.db.records.get? key with
  | none => exact .kept (by rw [hrow, hk]; rfl) hr hs
  | some row =>
    by_cases hp : p key row = true
    · exact .kept (by rw [hrow, hk]; simp [Option.filter, hp]) hr hs
    · exact .removed (by rw [hrow, hk]; simp [Option.filter, hp]) hr hs

/-- The statement of `consume` and of the claim redeems its own key and no other. -/
theorem change_of_consumeStatement {key k : Key} {s s' : State} {now : Instant}
    {action : Action} {o : Outcome} (h : consumeStatement s.db now k = some s'.db)
    (hr : redeems key ((now, action), o) = decide (k = key))
    (hs : saves key ((now, action), o) = false) : Change key s s' ((now, action), o) := by
  obtain ⟨row, hrow, hfree, -, hdb⟩ := consumeStatement_eq_some h
  by_cases hk : k = key
  · subst hk
    exact .redeemed hrow hfree (by rw [hdb]; simp) hs
  · refine .kept ?_ (by rw [hr]; simp [hk]) hs
    rw [hdb]
    exact OrderedMap.get?_set_of_ne _ (Ne.symm hk) _

theorem step_change {s s' : State} {e : Instant × Action} {o : Outcome}
    (h : step s e = some (s', o)) (key : Key) : Change key s s' (e, o) := by
  obtain ⟨now, action⟩ := e
  cases action with
  | run st =>
    simp only [step, Option.map_eq_some_iff, Prod.exists, Prod.mk.injEq] at h
    obtain ⟨db, o', hst, rfl, rfl⟩ := h
    rcases statement_cases hst with ⟨e, rfl, rfl⟩ | hst
    · exact .kept rfl (redeems_failed key now st e) (saves_failed key now st e)
    cases st with
    | upsert k payload expiresIn =>
      simp only [execute] at hst
      split at hst
      · cases hst
      · split at hst
        · cases hst
          exact .kept rfl rfl rfl
        · rename_i db' hup
          cases hst
          by_cases hk : k = key
          · subst hk
            exact .saved hup
          · obtain ⟨row, -, hdb⟩ := upsert_eq_ok hup
            refine .kept ?_ rfl (by simp [saves, hk])
            rw [hdb]
            exact OrderedMap.get?_set_of_ne _ (Ne.symm hk) _
    | find realm model column =>
      cases hst
      exact .kept rfl rfl rfl
    | consume k =>
      simp only [execute, consume] at hst
      split at hst
      · cases hst
      · cases hc : consumeStatement s.db now k with
        | none =>
          simp only [hc] at hst
          cases hst
          exact .kept rfl rfl rfl
        | some db' =>
          simp only [hc] at hst
          cases hst
          exact change_of_consumeStatement hc rfl rfl
    | claimInitialAccessToken realm id =>
      simp only [execute, claimInitialAccessToken] at hst
      split at hst
      · cases hst
      · cases hc : consumeStatement s.db now ⟨realm, "InitialAccessToken", id⟩ with
        | none =>
          simp only [hc] at hst
          cases hst
          exact .kept rfl rfl rfl
        | some db' =>
          simp only [hc] at hst
          cases hst
          exact change_of_consumeStatement hc rfl rfl
    | destroy k =>
      simp only [execute] at hst
      split at hst
      · cases hst
      · cases hst
        exact change_of_filter (p := fun k' _ => decide (k' ≠ k)) rfl rfl rfl
    | revokeByGrantId realm model grantId =>
      simp only [execute] at hst
      split at hst
      · cases hst
      · cases hst
        exact change_of_filter (p := fun k row =>
          !(k.realm = realm && k.model = model && row.grantId = some grantId)) rfl rfl rfl
    | cleanupExpired keys =>
      cases hst
      exact change_of_filter (p := fun k row =>
        !(keys.contains k && expired now row && !s.rowLocked k)) rfl rfl rfl
    | setUser realm u row =>
      simp only [execute] at hst
      split at hst
      · cases hst
      · obtain ⟨slot, -, hst⟩ := Option.map_eq_some_iff.mp hst
        cases hst
        exact .kept rfl rfl rfl
  | start kind realm accountId =>
    obtain ⟨-, hdb, -⟩ := start_moves h
    exact .kept (by rw [hdb]) rfl rfl
  | txn i a =>
    obtain ⟨t, -, ht⟩ := Option.bind_eq_some_iff.mp h
    rcases (stepTxn_moves ht).records with hsame | hfilter
    · exact .kept (by rw [hsame]) rfl rfl
    · exact change_of_filter hfilter rfl rfl

end AuthMe.Adapters.Postgres

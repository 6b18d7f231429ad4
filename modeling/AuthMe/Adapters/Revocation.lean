import AuthMe.Adapters.AccountEpoch

/-!
# What a revocation takes away

`mutateAccountSecurity` and `deleteAccount` of both data layers, when nothing else happens while
they run. A record belongs to a user by its own `accountId`, or by its `grantId`: through the
Grant that is there, or through the Grant that it was saved under, which may be gone.

* The in-memory data layer takes away exactly what belongs to the user.
* The SQL of the other one finds the user by the `uuid` and the records by the text of the
  identifier. The records have the canonical spelling, so another one takes nothing away.
-/

namespace AuthMe.Adapters

open Transition (Run Always Passed)

/-! ## In memory -/

namespace Memory

/-- The record was saved under a Grant of the account. -/
def SavedUnder (users : String → String → Slot) (past : List ((Instant × Action) × Nat × Outcome))
    (realm accountId : String) (ref : Nat) (g : String) : Prop :=
  ∃ m gref grant, Passed step (.initial users) past ref m ∧
    m.record? ⟨realm, "Grant", g⟩ = some (gref, grant) ∧ grant.payload.accountId = some accountId

/-- The record belongs to the user. -/
def Belongs (users : String → String → Slot) (past : List ((Instant × Action) × Nat × Outcome))
    (s : State) (realm accountId : String) (key : Key) (ref : Nat) : Prop :=
  key.realm = realm ∧ ∃ r, s.heap ref = some r ∧
    (r.payload.accountId = some accountId ∨ ∃ g, r.payload.grantId = some g ∧
      (accountGrant s realm accountId g = true ∨ SavedUnder users past realm accountId ref g))

/-- The mutation runs from its start to its return. Meanwhile the callback may change users. -/
inductive Applied (kind : Kind) (realm accountId : String) : State → State → Prop
  | intro {s s₁ c c₁ r f : State} {e₀ e₁ e₂ e₃ : Instant × Action}
      {tr : List ((Instant × Action) × Nat × Outcome)}
      (hevent : e₀.2 = .mutation kind realm accountId)
      (hstart : step s e₀ = some (s₁, s.tick, .suspended))
      (hcallback : Run step (fun _ e => ∃ r a row, e.2 = .setUser r a row) s₁ tr c)
      (hchange : Continues kind realm accountId s.tick .begun c e₁ c₁ .suspended)
      (hrevoke : Continues kind realm accountId s.tick .changed c₁ e₂ r .suspended)
      (hreturn : Continues kind realm accountId s.tick .revoked r e₃ f .mutated) :
      Applied kind realm accountId s f

/-- Exactly the records of the user are gone. -/
def Revoked (users : String → String → Slot) (past : List ((Instant × Action) × Nat × Outcome))
    (realm accountId : String) (s f : State) : Prop :=
  f.heap = s.heap ∧ ∀ key ref, f.store.get? key = some ref ↔
    s.store.get? key = some ref ∧ ¬ Belongs users past s realm accountId key ref

variable {users : String → String → Slot} {past : List ((Instant × Action) × Nat × Outcome)}
  {s s' f : State} {realm accountId : String}

/-- A record that is saved under a Grant has the account of the Grant. -/
theorem Born.grant {now : Instant} {a : Action} {call : Nat} {r : Record} (hs : Sound s)
    (h : Born s now a call r) {g : String} (hg : r.payload.grantId = some g) :
    ∃ gref grant, s.record? ⟨r.key.realm, "Grant", g⟩ = some (gref, grant) ∧
      grant.payload.accountId = r.payload.accountId := by
  cases h with
  | @intro key expiresIn next parent version hdecided hown hparent =>
    obtain ⟨hfst, -⟩ := hparent g hg
    have hnone : parent ≠ none := by
      rintro rfl
      cases hdecided with
      | unowned hready =>
        rcases hready.grant hs with ⟨-, hfree, -⟩ | ⟨ref, p, hsome, -⟩
        · rw [hfree] at hg
          cases hg
        · cases hsome
      | owned hcall =>
        rw [(hs.free hcall).1] at hg
        cases hg
    obtain ⟨ref, rfl⟩ := Option.ne_none_iff_exists'.mp hnone
    obtain ⟨⟨ref', p'⟩, hlive, rfl⟩ := Option.map_eq_some_iff.mp hfst
    have hrecord := (live?_eq_some.mp hlive).1
    refine ⟨ref', p', hrecord, ?_⟩
    have hheap := (record?_eq_some.mp hrecord).2
    cases hdecided with
    | unowned hready =>
      rcases hready.grant hs with ⟨hsome, -⟩ | ⟨ref, p, hsome, -, hp, -, -, hacc⟩
      · cases hsome
      · cases hsome
        cases hp.symm.trans hheap
        exact hacc
    | owned hcall =>
      obtain ⟨-, p, hp, -, -, hacc⟩ := hs.own hcall
      cases hp.symm.trans hheap
      exact hacc

/-- Every record has the account of the Grant that it was saved under. -/
def Parented (users : String → String → Slot) (s : State)
    (past : List ((Instant × Action) × Nat × Outcome)) : Prop :=
  s.tick = past.length ∧ ∀ ref r g, s.heap ref = some r → r.payload.grantId = some g →
    ∃ m gref grant, Passed step (.initial users) past ref m ∧
      m.record? ⟨r.key.realm, "Grant", g⟩ = some (gref, grant) ∧
      grant.payload.accountId = r.payload.accountId

theorem parented_of_run (h : Run step Always (.initial users) past s) :
    Parented users s past := by
  refine h.along (I := Parented users) ?_ ⟨rfl, fun ref r g hr => by cases hr⟩
  intro m past e m' o hrun ⟨htick, hm⟩ _ hstep
  have hsound : Sound m := (sound_initial users).run hrun
  obtain ⟨s₁, rfl, -, hmove⟩ := step_move hstep
  refine ⟨by rw [hmove.tick, htick, List.length_append]; rfl, fun ref r' g hr' hg => ?_⟩
  rcases hmove.heap hr' with ⟨r, hr, hsame⟩ | ⟨rfl, hborn⟩
  · obtain ⟨m₁, gref, grant, hpassed, hget, hacc⟩ := hm ref r g hr (by rw [← hsame.grantId, hg])
    exact ⟨m₁, gref, grant, hpassed.append, by rw [hsame.key]; exact hget,
      by rw [hsame.accountId]; exact hacc⟩
  · obtain ⟨gref, grant, hget, hacc⟩ := hborn.grant hsound hg
    refine ⟨m, gref, grant, ?_, hget, hacc⟩
    rw [htick]
    exact (Passed.intro hrun).append

/-- What belongs to the user is what `revokeMemoryAccount` takes away. -/
theorem belongs_iff_doomed (h : Run step Always (.initial users) past s) {key : Key} {ref : Nat}
    (hstore : s.store.get? key = some ref) :
    Belongs users past s realm accountId key ref ↔ doomed s realm accountId key ref = true := by
  have hsound : Sound s := (sound_initial users).run h
  obtain ⟨r, hr⟩ := hsound.wf.store hstore
  have hkey : r.key = key := hsound.stored hstore hr
  have hsaved : ∀ g, r.payload.grantId = some g → key.realm = realm →
      SavedUnder users past realm accountId ref g → r.payload.accountId = some accountId := by
    rintro g hg hrealm ⟨m, gref, grant, hm, hget, hacc⟩
    obtain ⟨m', gref', grant', hm', hget', hacc'⟩ := (parented_of_run h).2 ref r g hr hg
    obtain rfl := hm.unique hm'
    rw [hkey, hrealm, hget] at hget'
    cases hget'
    rw [← hacc', hacc]
  simp only [doomed, hr, Bool.and_eq_true, Bool.or_eq_true, decide_eq_true_eq]
  constructor
  · rintro ⟨hrealm, r', hr', hown | ⟨g, hg, hgrant⟩⟩
    · cases hr.symm.trans hr'
      exact ⟨hrealm, .inl hown⟩
    · cases hr.symm.trans hr'
      refine ⟨hrealm, ?_⟩
      rcases hgrant with hgrant | hgrant
      · rw [hg]
        exact .inr hgrant
      · exact .inl (hsaved g hg hrealm hgrant)
  · rintro ⟨hrealm, hown | hgrant⟩
    · exact ⟨hrealm, r, hr, .inl hown⟩
    · cases hg : r.payload.grantId with
      | none =>
        rw [hg] at hgrant
        cases hgrant
      | some g =>
        rw [hg] at hgrant
        exact ⟨hrealm, r, hr, .inr ⟨g, hg, .inl hgrant⟩⟩

/-- The records of two states are the same. -/
structure SameRecords (s s' : State) : Prop where
  heap : s'.heap = s.heap
  store : s'.store = s.store

theorem SameRecords.refl (s : State) : SameRecords s s := ⟨rfl, rfl⟩

theorem SameRecords.trans {s s' s'' : State} (h : SameRecords s s') (h' : SameRecords s' s'') :
    SameRecords s s'' := ⟨h'.heap.trans h.heap, h'.store.trans h.store⟩

theorem SameRecords.doomed (h : SameRecords s s') (key : Key) (ref : Nat) :
    Memory.doomed s' realm accountId key ref = Memory.doomed s realm accountId key ref := by
  simp only [Memory.doomed, accountGrant, State.record?, h.heap, h.store]

theorem sameRecords_setUser {e : Instant × Action} {x : Nat × Outcome} {r a : String}
    {row : Account} (he : e.2 = .setUser r a row) (h : step s e = some (s', x)) :
    SameRecords s s' := by
  obtain ⟨now, action⟩ := e
  obtain rfl : action = _ := he
  simp only [step, perform, Option.map_map, Option.map_eq_some_iff] at h
  obtain ⟨slot, -, heq⟩ := h
  cases heq
  exact ⟨rfl, rfl⟩

theorem Applied.records {kind : Kind} (h : Applied kind realm accountId s f) :
    f.heap = s.heap ∧
      f.store = s.store.filter fun key ref => !doomed s realm accountId key ref := by
  obtain ⟨hevent, hstart, hcallback, hchange, hrevoke, hreturn⟩ := h
  rename_i s₁ c c₁ r e₀ e₁ e₂ e₃ tr
  have hs₁ : SameRecords s s₁ := by
    obtain ⟨now, action⟩ := e₀
    obtain rfl : action = _ := hevent
    simp only [step, perform, mutationStart, Option.map_some, Option.some.injEq,
      Prod.mk.injEq] at hstart
    obtain ⟨rfl, -⟩ := hstart
    split
    · exact ⟨rfl, rfl⟩
    · exact ⟨rfl, rfl⟩
  have hc : SameRecords s₁ c := by
    refine hcallback.relates SameRecords.refl (fun _ _ _ => SameRecords.trans) ?_
    rintro m e m' o ⟨r, a, row, he⟩ hstep
    exact sameRecords_setUser he hstep
  have hc₁ : SameRecords c c₁ := by
    obtain ⟨rfl, -⟩ := hchange.eq
    simp only [mutationResume]
    cases kind with
    | mutate => exact ⟨rfl, rfl⟩
    | delete =>
      dsimp only
      split
      · exact ⟨rfl, rfl⟩
      · exact ⟨rfl, rfl⟩
  have hall : SameRecords s c₁ := (hs₁.trans hc).trans hc₁
  obtain ⟨rfl, -⟩ := hrevoke.eq
  obtain ⟨rfl, -⟩ := hreturn.eq
  refine ⟨hall.heap, ?_⟩
  change c₁.store.filter (fun key ref => !doomed c₁ realm accountId key ref) = _
  rw [hall.store]
  simp only [hall.doomed]

theorem Applied.revoked {kind : Kind} (hpast : Run step Always (.initial users) past s)
    (h : Applied kind realm accountId s f) : Revoked users past realm accountId s f := by
  obtain ⟨hheap, hstore⟩ := h.records
  refine ⟨hheap, fun key ref => ?_⟩
  rw [hstore, OrderedMap.get?_filter, Option.filter_eq_some_iff]
  refine and_congr_right fun hget => ?_
  rw [belongs_iff_doomed hpast hget]
  simp

end Memory

/-! ## On PostgreSQL -/

namespace Postgres

/-- The row was saved under a Grant of the user. -/
def SavedUnder (users : String → Uuid → Slot) (past : List ((Instant × Action) × Outcome))
    (realm : String) (u : Uuid) (row : OidcRow) (g : String) : Prop :=
  ∃ m grant, Passed step (.initial users) past row.saved m ∧
    m.db.records.get? ⟨realm, "Grant", g⟩ = some grant ∧ grant.account? = some u

/-- The Grant of the row is there, and `P` holds of it. -/
def Under (db : Db) (realm : String) (row : OidcRow) (P : OidcRow → Prop) : Prop :=
  ∃ g grant, row.grantId = some g ∧ db.records.get? ⟨realm, "Grant", g⟩ = some grant ∧ P grant

/-- The record belongs to the user. -/
def Belongs (users : String → Uuid → Slot) (past : List ((Instant × Action) × Outcome))
    (s : State) (realm : String) (u : Uuid) (key : Key) (row : OidcRow) : Prop :=
  key.realm = realm ∧ (row.account? = some u ∨ Under s.db realm row (·.account? = some u) ∨
    ∃ g, row.grantId = some g ∧ SavedUnder users past realm u row g)

/-- The transaction runs from its start to its commit. -/
inductive Applied (kind : Kind) (realm accountId : String) (u : Uuid) : State → State → Prop
  | intro {s s₁ r r₁ f₁ f : State} {e₀ e₁ e₂ : Instant × Action} {o : Outcome}
      {tr₁ tr₂ : List ((Instant × Action) × Outcome)} (hu : Uuid.parse accountId = some u)
      (he₀ : e₀.2 = .start kind realm accountId) (hstart : step s e₀ = some (s₁, .begun))
      (hrun₁ : Run step (fun _ e => ∃ a, e.2 = .txn s.tick a) s₁ tr₁ r)
      (he₁ : e₁.2 = .txn s.tick .revoke) (hrevoke : step r e₁ = some (r₁, o))
      (hrun₂ : Run step (fun _ e => ∃ a, e.2 = .txn s.tick a) r₁ tr₂ f₁)
      (he₂ : e₂.2 = .txn s.tick .commit) (hcommit : step f₁ e₂ = some (f, .committed)) :
      Applied kind realm accountId u s f

/-- Exactly the records of the user are gone. -/
def Revoked (users : String → Uuid → Slot) (past : List ((Instant × Action) × Outcome))
    (realm : String) (u : Uuid) (s f : State) : Prop :=
  ∀ key row, f.db.records.get? key = some row ↔
    s.db.records.get? key = some row ∧ ¬ Belongs users past s realm u key row

/-- A record of the realm names the user. -/
def Named (db : Db) (realm : String) (u : Uuid) : Prop :=
  ∃ key row, db.records.get? key = some row ∧ key.realm = realm ∧ row.account? = some u

variable {users : String → Uuid → Slot} {past : List ((Instant × Action) × Outcome)}
  {s s' f : State} {realm accountId : String} {u : Uuid}

/-- Under a Grant the account is the one of the Grant. -/
theorem security_parent {db : Db} {now : Instant} {g : String} {accountId : Option String}
    {version : Option Nat} {owner : Option String}
    (h : security db now realm accountId (some g) = some (version, owner)) :
    ∃ grant u, db.records.get? ⟨realm, "Grant", g⟩ = some grant ∧ grant.account? = some u ∧
      owner.bind Uuid.parse = some u := by
  unfold security at h
  dsimp only at h
  split at h
  · rename_i hvalid
    obtain ⟨-, hparent, hsame⟩ := hvalid
    simp only [reduceCtorEq, false_or] at hparent hsame
    obtain ⟨⟨u, v⟩, hpa⟩ := Option.isSome_iff_exists.mp hparent
    simp only [Option.some.injEq, Prod.mk.injEq] at h
    obtain ⟨grant, hgrant, hp⟩ := Option.bind_eq_some_iff.mp hpa
    obtain ⟨u', hu', hp⟩ := Option.bind_eq_some_iff.mp hp
    obtain ⟨text, htext, hu'⟩ := Option.bind_eq_some_iff.mp hu'
    obtain ⟨user, -, heq⟩ := Option.map_eq_some_iff.mp hp
    cases heq
    have hget : db.records.get? ⟨realm, "Grant", g⟩ = some grant :=
      (Option.filter_eq_some_iff.mp hgrant).1
    refine ⟨grant, u, hget, ?_, ?_⟩
    · rw [OidcRow.account?, htext, Uuid.ofText?_eq_some.mp hu']
      exact Uuid.parse_text u
    · rw [← h.2, hpa]
      cases accountId with
      | none => simp
      | some a =>
        have hparse : Uuid.parse a = some u := by simpa [hpa, eq_comm] using hsame
        simp [hparse]
  · cases h

theorem Written.parent {db : Db} {now : Instant} {key : Key} {payload : Payload} {n : Nat}
    {row : OidcRow} (h : Written db now key payload n row) {g : String}
    (hg : row.grantId = some g) :
    ∃ grant u, db.records.get? ⟨key.realm, "Grant", g⟩ = some grant ∧ grant.account? = some u ∧
      row.account? = some u := by
  obtain ⟨owner, hsec, hacc⟩ := h.security
  rw [← h.grantId, hg] at hsec
  obtain ⟨grant, u, hget, hgrant, howner⟩ := security_parent hsec
  refine ⟨grant, u, hget, hgrant, ?_⟩
  obtain ⟨text, rfl, htext⟩ := Option.bind_eq_some_iff.mp howner
  rw [OidcRow.account?, hacc]
  exact htext

/-- Every row has the account of the Grant that it was saved under. -/
def Parented (users : String → Uuid → Slot) (s : State)
    (past : List ((Instant × Action) × Outcome)) : Prop :=
  s.tick = past.length ∧ ∀ key row g, s.db.records.get? key = some row → row.grantId = some g →
    ∃ m grant u, Passed step (.initial users) past row.saved m ∧
      m.db.records.get? ⟨key.realm, "Grant", g⟩ = some grant ∧ grant.account? = some u ∧
      row.account? = some u

theorem parented_of_run (h : Run step Always (.initial users) past s) :
    Parented users s past := by
  refine h.along (I := Parented users) ?_ ⟨rfl, fun key row g hr => by cases hr⟩
  intro m past e m' o hrun ⟨htick, hm⟩ _ hstep
  refine ⟨by rw [(step_moves hstep).2, htick, List.length_append]; rfl,
    fun key row' g hr' hg => ?_⟩
  cases step_change hstep key with
  | kept hrow =>
    rw [hrow] at hr'
    obtain ⟨m₁, grant, u, hpassed, hrest⟩ := hm key row' g hr' hg
    exact ⟨m₁, grant, u, hpassed.append, hrest⟩
  | removed hrow =>
    rw [hrow] at hr'
    cases hr'
  | redeemed hrow hfree hrow' =>
    rw [hrow'] at hr'
    cases hr'
    obtain ⟨m₁, grant, u, hpassed, hrest⟩ := hm key _ g hrow hg
    exact ⟨m₁, grant, u, hpassed.append, hrest⟩
  | saved hup =>
    obtain ⟨row, hwritten, hdb⟩ := upsert_eq_ok hup
    rw [hdb, OrderedMap.get?_set_self] at hr'
    cases hr'
    obtain ⟨grant, u, hrest⟩ := hwritten.parent hg
    refine ⟨m, grant, u, ?_, hrest⟩
    rw [hwritten.saved, htick]
    exact (Passed.intro hrun).append

/-- A row that was saved under a Grant of the user names the user. -/
theorem belongs_iff (h : Run step Always (.initial users) past s) {key : Key} {row : OidcRow}
    (hrow : s.db.records.get? key = some row) :
    Belongs users past s realm u key row ↔ key.realm = realm ∧
      (row.account? = some u ∨ Under s.db realm row (·.account? = some u)) := by
  refine and_congr_right fun hrealm => ⟨?_, ?_⟩
  · rintro (hown | hunder | ⟨g, hg, m, grant, hm, hget, hacc⟩)
    · exact .inl hown
    · exact .inr hunder
    · obtain ⟨m', grant', u', hm', hget', hacc', hown⟩ := (parented_of_run h).2 key row g hrow hg
      obtain rfl := hm.unique hm'
      rw [hrealm, hget] at hget'
      cases hget'
      rw [hacc] at hacc'
      cases hacc'
      exact .inl hown
  · rintro (hown | hunder)
    · exact .inl hown
    · exact .inr (.inl hunder)

/-- What `revokeAccountSql` takes away. -/
theorem doomed_iff {db : Db} {key : Key} {row : OidcRow} :
    doomed db realm accountId key row = true ↔ key.realm = realm ∧
      (row.payload.accountId = some accountId ∨
        Under db realm row (·.payload.accountId = some accountId)) := by
  simp only [doomed, Bool.and_eq_true, Bool.or_eq_true, decide_eq_true_eq]
  refine and_congr_right fun _ => or_congr_right ?_
  cases hg : row.grantId with
  | none => simp [Under, hg]
  | some g =>
    cases hget : db.records.get? ⟨realm, "Grant", g⟩ with
    | none => simp [Under, hg, accountGrant, hget]
    | some grant => simp [Under, hg, accountGrant, hget]

/-- An account is stored in its canonical spelling. -/
def Canonical (s : State) : Prop :=
  ∀ key row a, s.db.records.get? key = some row → row.payload.accountId = some a →
    ∃ u : Uuid, a = u.text

theorem canonical_of_run (h : Run step Always (.initial users) past s) : Canonical s := by
  refine h.invariant (I := Canonical) ?_ fun key row a hr => by cases hr
  intro m m' e o hm _ hstep key row' a hr' ha
  cases step_change hstep key with
  | kept hrow =>
    rw [hrow] at hr'
    exact hm key row' a hr' ha
  | removed hrow =>
    rw [hrow] at hr'
    cases hr'
  | redeemed hrow hfree hrow' =>
    rw [hrow'] at hr'
    cases hr'
    exact hm key _ a hrow ha
  | saved hup =>
    obtain ⟨row, hwritten, hdb⟩ := upsert_eq_ok hup
    rw [hdb, OrderedMap.get?_set_self] at hr'
    cases hr'
    obtain ⟨owner, hsec, hacc⟩ := hwritten.security
    exact security_owner hsec a (hacc ▸ ha)

theorem Canonical.account?_iff (h : Canonical s) {key : Key} {row : OidcRow}
    (hrow : s.db.records.get? key = some row) :
    row.account? = some u ↔ row.payload.accountId = some u.text := by
  constructor
  · intro hacc
    obtain ⟨a, ha, hparse⟩ := Option.bind_eq_some_iff.mp hacc
    obtain ⟨u', rfl⟩ := h key row a hrow ha
    obtain rfl : u' = u := Option.some.inj ((Uuid.parse_text u').symm.trans hparse)
    exact ha
  · intro ha
    rw [OidcRow.account?, ha]
    exact Uuid.parse_text u

/-- A Grant that is there is a record of its own. -/
theorem named_of_names {db : Db} {key : Key} {row : OidcRow} (hrow : db.records.get? key = some row)
    (hrealm : key.realm = realm)
    (h : row.account? = some u ∨ Under db realm row (·.account? = some u)) : Named db realm u := by
  rcases h with hown | ⟨g, grant, -, hget, hacc⟩
  · exact ⟨key, row, hrow, hrealm, hown⟩
  · exact ⟨⟨realm, "Grant", g⟩, grant, hget, rfl, hacc⟩

/-- In any spelling it is the user. -/
theorem account?_of_spelled (hu : Uuid.parse accountId = some u) {row : OidcRow}
    (h : row.payload.accountId = some accountId) : row.account? = some u := by
  rw [OidcRow.account?, h]
  exact hu

theorem Applied.records {kind : Kind} (h : Applied kind realm accountId u s f)
    {key : Key} {row : OidcRow} : f.db.records.get? key = some row ↔
      s.db.records.get? key = some row ∧ doomed s.db realm accountId key row = false := by
  obtain ⟨hu, he₀, hstart, hrun₁, he₁, hrevoke, hrun₂, he₂, hcommit⟩ := h
  rename_i s₁ r r₁ f₁ e₀ e₁ e₂ o tr₁ tr₂
  obtain ⟨account, haccount, hdb₁, htick₁, htxns₁⟩ := start_begun hu he₀ hstart
  -- the transaction changes nothing that others see before it commits
  have hown : ∀ {m m' : State} {e : Instant × Action} {o : Outcome},
      (∀ t, m.txns.get? s.tick = some t → m.db = s.db) → (∃ a, e.2 = .txn s.tick a) →
      step m e = some (m', o) → ∀ t, m'.txns.get? s.tick = some t → m'.db = s.db := by
    rintro m m' e o hm ⟨a, he⟩ hstep t' ht'
    obtain ⟨t, ht, hmoves⟩ := step_txn he hstep
    cases hmoves with
    | advanced hs' =>
      rw [hs']
      exact hm t ht
    | rolledBack _ hs' | committed _ _ hs' =>
      rw [hs', State.endTxn, OrderedMap.get?_erase_self] at ht'
      cases ht'
  have hheld₁ : Held s.tick kind realm accountId u account.securityVersion s₁ := by
    refine ⟨by omega, fun {t} ht => ?_⟩
    rw [htxns₁, OrderedMap.get?_set_self] at ht
    cases ht
    exact ⟨rfl, rfl, rfl, rfl, Nat.le_refl _, fun _ hb => absurd rfl hb⟩
  have hheld_r := hrun₁.invariant (fun _ _ _ _ hI _ h => Held.step hI h) hheld₁
  have hdb_r := hrun₁.invariant (I := fun m => ∀ t, m.txns.get? s.tick = some t → m.db = s.db)
    (fun _ _ _ _ hI hG h => hown hI hG h) (fun _ _ => hdb₁)
  have hdb_r₁ := hown hdb_r ⟨_, he₁⟩ hrevoke
  have hdb_f₁ := hrun₂.invariant (I := fun m => ∀ t, m.txns.get? s.tick = some t → m.db = s.db)
    (fun _ _ _ _ hI hG h => hown hI hG h) hdb_r₁
  have hdel_r₁ : Deleted s.tick (doomedKeys s.db realm accountId) r₁ := by
    obtain ⟨t, ht, hmoves⟩ := step_txn he₁ hrevoke
    obtain ⟨-, hrealm, hacc, -⟩ := hheld_r.txn ht
    cases hmoves with
    | advanced hs' _ hrevokes =>
      cases hrevokes with
      | other ha => exact absurd rfl ha
      | revoke _ hnew =>
        refine ⟨(hheld_r.step hrevoke).later, fun {t'} ht' => ?_⟩
        rw [hs', State.setTxn, OrderedMap.get?_set_self] at ht'
        cases ht'
        rw [hnew, hrealm, hacc, hdb_r t ht]
    | rolledBack ha => cases ha
    | committed ha => cases ha
  have hdel_f₁ := hrun₂.invariant (fun _ _ _ _ hI _ h => Deleted.step hI h) hdel_r₁
  obtain ⟨t, ht, hmoves⟩ := step_txn he₂ hcommit
  cases hmoves with
  | advanced _ _ _ ho => exact absurd rfl ho
  | rolledBack _ _ ho => exact absurd rfl ho
  | committed ha hslot hs' =>
    rw [hs']
    change (f₁.db.records.filter fun key _ => !t.marked.contains key).get? key = some row ↔ _
    rw [hdb_f₁ t ht, OrderedMap.get?_filter, Option.filter_eq_some_iff, Txn.marked,
      hdel_f₁.txn ht]
    refine and_congr_right fun hget => ?_
    simp only [Option.getD_some, Bool.not_eq_true', List.contains_eq_mem,
      decide_eq_false_iff_not, mem_doomedKeys, hget, Option.some.injEq]
    simp

theorem Applied.revoked_iff {kind : Kind} (hpast : Run step Always (.initial users) past s)
    (h : Applied kind realm accountId u s f) :
    Revoked users past realm u s f ↔ accountId = u.text ∨ ¬ Named s.db realm u := by
  have hu : Uuid.parse accountId = some u := by
    cases h
    assumption
  have hcanonical := canonical_of_run hpast
  -- what is doomed names the user
  have hnames : ∀ {key row}, doomed s.db realm accountId key row = true →
      key.realm = realm ∧ (row.account? = some u ∨ Under s.db realm row (·.account? = some u)) := by
    intro key row hdoomed
    obtain ⟨hrealm, hown | ⟨g, grant, hg, hgrant, hacc⟩⟩ := doomed_iff.mp hdoomed
    · exact ⟨hrealm, .inl (account?_of_spelled hu hown)⟩
    · exact ⟨hrealm, .inr ⟨g, grant, hg, hgrant, account?_of_spelled hu hacc⟩⟩
  constructor
  · intro hrevoked
    by_cases hnamed : Named s.db realm u
    · obtain ⟨key, row, hget, hrealm, hacc⟩ := hnamed
      have hdoomed : doomed s.db realm accountId key row = true := by
        by_contra hkept
        have hgone := ((hrevoked key row).mp (h.records.mpr ⟨hget, by simpa using hkept⟩)).2
        exact hgone ((belongs_iff hpast hget).mpr ⟨hrealm, .inl hacc⟩)
      -- the spelling of the request is the one of a record
      have hspelled : ∃ u' : Uuid, accountId = u'.text := by
        obtain ⟨-, hown | ⟨g, grant, -, hgrant, hacc'⟩⟩ := doomed_iff.mp hdoomed
        · exact hcanonical key row accountId hget hown
        · exact hcanonical _ grant accountId hgrant hacc'
      obtain ⟨u', rfl⟩ := hspelled
      rw [Uuid.parse_text] at hu
      cases hu
      exact .inl rfl
    · exact .inr hnamed
  · intro hcond key row
    rw [h.records]
    refine and_congr_right fun hget => ?_
    rw [← Bool.not_eq_true, not_iff_not, belongs_iff hpast hget]
    refine ⟨hnames, ?_⟩
    rintro ⟨hrealm, hown⟩
    rcases hcond with rfl | hunnamed
    · refine doomed_iff.mpr ⟨hrealm, ?_⟩
      rcases hown with hown | ⟨g, grant, hg, hgrant, hacc⟩
      · exact .inl ((hcanonical.account?_iff hget).mp hown)
      · exact .inr ⟨g, grant, hg, hgrant, (hcanonical.account?_iff hgrant).mp hacc⟩
    · exact absurd (named_of_names hget hrealm hown) hunnamed

end Postgres

/-! ## The law -/

/-- In memory a mutation takes away exactly the records of the user. On PostgreSQL it does if and
only if the request spells the identifier as it is stored, or no record of the realm names the
user. -/
theorem revocation_law (kind : Kind) (realm accountId : String) :
    (∀ users past s f, Run Memory.step Always (.initial users) past s →
      Memory.Applied kind realm accountId s f →
      Memory.Revoked users past realm accountId s f) ∧
    ∀ users past s f u, Run Postgres.step Always (.initial users) past s →
      Postgres.Applied kind realm accountId u s f →
      (Postgres.Revoked users past realm u s f ↔
        accountId = u.text ∨ ¬ Postgres.Named s.db realm u) :=
  ⟨fun _ _ _ _ hpast h => h.revoked hpast, fun _ _ _ _ _ hpast h => h.revoked_iff hpast⟩

/-! ## Runs -/

/-- A token of Alice is saved in memory, and her account is mutated. -/
theorem memory_applied : ∃ past s f, Run Memory.step Always
    (.initial fun _ _ => .live ⟨true, 0⟩) past s ∧
    Memory.Applied .mutate "master" alice.text s f ∧ s.store.get? token = some 1 := by
  have hpast : Run Memory.step Always (.initial fun _ _ => .live ⟨true, 0⟩)
      [((noon, .upsert token (boundTo alice) none), 0, .suspended),
        ((noon, .resume 0), 0, .saved token)] _ := .cons trivial rfl (.cons trivial rfl (.nil _))
  refine ⟨_, _, _, hpast, .intro
    (rfl : (noon, Memory.Action.mutation .mutate "master" alice.text).2 = _) rfl (.nil _)
    ⟨rfl, (rfl : (noon, Memory.Action.resume 2).2 = _), rfl⟩
    ⟨rfl, (rfl : (noon, Memory.Action.resume 2).2 = _), rfl⟩
    ⟨rfl, (rfl : (noon, Memory.Action.resume 2).2 = _), rfl⟩, rfl⟩

/-- The identifier of Alice as an administrator may type it. -/
def aliceTyped : String := "A11CE000-0000-4000-8000-000000000000"

/-- A token of Alice is saved on PostgreSQL in that spelling, and her account is mutated. -/
theorem postgres_applied : ∃ past s f row, Run Postgres.step Always
    (.initial fun _ _ => .live ⟨true, 0⟩) past s ∧
    Postgres.Applied .mutate "master" alice.text alice s f ∧
    s.db.records.get? token = some row := by
  have hpast : Run Postgres.step Always (.initial fun _ _ => .live ⟨true, 0⟩)
      [((noon, .run (.upsert token { accountId := some aliceTyped } none)), .done)] _ :=
    .cons trivial rfl (.nil _)
  refine ⟨_, _, _, _, hpast, .intro (Uuid.parse_text alice)
    (rfl : (noon, Postgres.Action.start .mutate "master" alice.text).2 = _) rfl
    (.cons ⟨.bump, rfl⟩ (rfl : Postgres.step _ (noon, .txn 1 .bump) = _) (.nil _))
    (rfl : (noon, Postgres.Action.txn 1 .revoke).2 = _) rfl (.nil _)
    (rfl : (noon, Postgres.Action.txn 1 .commit).2 = _) rfl, rfl⟩

theorem revocation_law_of_token :
    (∃ past s f, Memory.Revoked (fun _ _ => .live ⟨true, 0⟩) past "master" alice.text s f ∧
      s.store.get? token = some 1) ∧
    ∃ past s f row, Postgres.Revoked (fun _ _ => .live ⟨true, 0⟩) past "master" alice s f ∧
      s.db.records.get? token = some row := by
  obtain ⟨past, s, f, hpast, happlied, hstore⟩ := memory_applied
  obtain ⟨past', s', f', row, hpast', happlied', hget⟩ := postgres_applied
  exact ⟨⟨past, s, f, (revocation_law .mutate "master" alice.text).1 _ past s f hpast happlied,
      hstore⟩,
    past', s', f', row, ((revocation_law .mutate "master" alice.text).2 _ past' s' f' alice hpast'
      happlied').mpr (.inl rfl), hget⟩

/-- Her account is mutated under the other spelling, and the token stays. -/
theorem token_survives : ∃ past s f row, Run Postgres.step Always
    (.initial fun _ _ => .live ⟨true, 0⟩) past s ∧
    Postgres.Applied .mutate "master" aliceTyped alice s f ∧
    s.db.records.get? token = some row ∧ row.payload.accountId = some alice.text ∧
    f.db.records.get? token = some row := by
  have hpast : Run Postgres.step Always (.initial fun _ _ => .live ⟨true, 0⟩)
      [((noon, .run (.upsert token (boundTo alice) none)), .done)] _ := .cons trivial rfl (.nil _)
  refine ⟨_, _, _, _, hpast, .intro (by decide)
    (rfl : (noon, Postgres.Action.start .mutate "master" aliceTyped).2 = _) rfl
    (.cons ⟨.bump, rfl⟩ (rfl : Postgres.step _ (noon, .txn 1 .bump) = _) (.nil _))
    (rfl : (noon, Postgres.Action.txn 1 .revoke).2 = _) rfl (.nil _)
    (rfl : (noon, Postgres.Action.txn 1 .commit).2 = _) rfl, rfl, rfl, rfl⟩

/-- A mutation does not take away every record of the user. -/
theorem revocation_incomplete : ∃ past s f, Run Postgres.step Always
    (.initial fun _ _ => .live ⟨true, 0⟩) past s ∧
    Postgres.Applied .mutate "master" aliceTyped alice s f ∧
    ¬ Postgres.Revoked (fun _ _ => .live ⟨true, 0⟩) past "master" alice s f := by
  obtain ⟨past, s, f, row, hpast, happlied, hget, hacc, hkept⟩ := token_survives
  refine ⟨past, s, f, hpast, happlied, fun hrevoked => ?_⟩
  have hgone := ((hrevoked token row).mp hkept).2
  refine hgone ((Postgres.belongs_iff hpast hget).mpr ⟨rfl, .inl ?_⟩)
  exact Postgres.account?_of_spelled (Uuid.parse_text alice) hacc

end AuthMe.Adapters

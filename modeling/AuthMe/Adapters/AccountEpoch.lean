import AuthMe.Adapters.MemoryEpoch
import AuthMe.Adapters.PostgresEpoch

/-!
# Account epochs

`account_epoch` is the law of `mutateAccountSecurity` and `deleteAccount` for both
adapters: when one of them has been applied, what was saved before it is not found any
more, nothing new is saved under the Grants that it has revoked, and what belongs to
somebody else is as it was.

The law has two edges. An artifact that is saved again after the mutation has started is
a new one. And an artifact that belongs to the account only through the identifier of its
Grant is lost with that Grant: if the Grant is gone before the mutation revokes, the
artifact stays with the account that it was saved for (`revoked_artifact_found`).
-/

namespace AuthMe.Adapters

open Transition (Run Always)

/-- The law for a mutation in the in-memory adapter: it started in `s₀`, revoked in `r` and
returned in `f`. The queries that started after it carry a number from `f.tick` on. -/
structure Memory.EpochLaw (users : String → String → Slot) (realm accountId : String)
    (s₀ r f : Memory.State) : Prop where
  found : ∀ {tr s s' e call key ref payload}, Run Memory.step Always f tr s →
    Memory.step s e = some (s', call, .found key ref payload) → f.tick ≤ call →
    key.realm = realm → ∃ x, s.heap ref = some x ∧ x.payload = payload ∧
      (payload.accountId = some accountId → s₀.tick < x.called) ∧
      ∀ g, payload.grantId = some g → Memory.accountGrant r realm accountId g = true → r.tick ≤ ref
  saved : ∀ {tr s s' e call key x g}, Run Memory.step Always f tr s →
    Memory.step s e = some (s', call, .saved key) → key.realm = realm →
    s'.heap s.tick = some x → x.payload.grantId = some g →
    Memory.accountGrant s₀ realm accountId g = true →
    ∃ ref q, s.store.get? ⟨realm, "Grant", g⟩ = some ref ∧ s.heap ref = some q ∧
      s₀.tick < ref ∧ (q.payload.accountId = some accountId → s₀.tick < q.called)
  frame : ∀ {tr s s' e o}, Run Memory.step Always (.initial users) tr s →
    Memory.MutationStep realm accountId s e → Memory.step s e = some (s', o) →
    (∀ key ref, Memory.doomed s realm accountId key ref = false →
      (s'.store.get? key = some ref ↔ s.store.get? key = some ref)) ∧
    (∀ now model c x, Memory.look s now realm model c = some x →
      Memory.doomed s realm accountId x.1 x.2.1 = false →
      Memory.look s' now realm model c = some x) ∧
    (∀ now other model c, other ≠ realm →
      Memory.look s' now other model c = Memory.look s now other model c)

/-- The law for a mutation on PostgreSQL: its transaction started in `s₀`, revoked in `r`
and has committed in `f`. -/
structure Postgres.EpochLaw (users : String → Uuid → Slot) (realm accountId : String) (u : Uuid)
    (s₀ r f : Postgres.State) : Prop where
  found : ∀ {tr s s' e key row}, Run Postgres.step Always f tr s →
    Postgres.step s e = some (s', .found (some (key, row))) → key.realm = realm →
    (row.account? = some u → s₀.tick < row.saved) ∧
      ∀ g, row.grantId = some g → Postgres.accountGrant r.db realm accountId g = true →
        r.tick < row.saved
  saved : ∀ {tr s s' e key payload expiresIn g grant₀}, Run Postgres.step Always f tr s →
    e.2 = .run (.upsert key payload expiresIn) → Postgres.step s e = some (s', .done) →
    key.realm = realm → payload.grantId = some g →
    s₀.db.records.get? ⟨realm, "Grant", g⟩ = some grant₀ → grant₀.account? = some u →
    ∃ grant, s.db.records.get? ⟨realm, "Grant", g⟩ = some grant ∧ s₀.tick < grant.saved
  frame : ∀ {tr s s' e o}, Run Postgres.step Always (.initial users) tr s →
    Postgres.MutationStep realm accountId u s e → Postgres.step s e = some (s', o) →
    (∀ key row, Postgres.doomed s.db realm accountId key row = false →
      (s'.db.records.get? key = some row ↔ s.db.records.get? key = some row)) ∧
    (∀ now model c key row, Postgres.findBy s.db now realm model c = some (key, row) →
      Postgres.doomed s.db realm accountId key row = false → row.account? ≠ some u →
      Postgres.findBy s'.db now realm model c = some (key, row)) ∧
    (∀ now other model c, other ≠ realm →
      Postgres.findBy s'.db now other model c = Postgres.findBy s.db now other model c)

theorem Memory.epochLaw {users : String → String → Slot} {kind : Kind} {realm accountId : String}
    {s₀ r f : Memory.State} {past : List ((Instant × Memory.Action) × Nat × Memory.Outcome)}
    (hpast : Run Memory.step Always (.initial users) past s₀)
    (hm : Memory.Mutation kind realm accountId s₀ r f) :
    Memory.EpochLaw users realm accountId s₀ r f := by
  have hs₀ := (Memory.sound_initial users).run hpast
  constructor
  · intro tr s s' e call key ref payload hrun hstep hcall hrealm
    exact (hm.after hs₀ hrun).found hstep hcall hrealm
  · intro tr s s' e call key x g hrun hstep hrealm hx hg hgrant
    exact (hm.after hs₀ hrun).saved hs₀ hstep hrealm hx hg hgrant
  · intro tr s s' e o _ hmut hstep
    exact (hmut.frame hstep).queries

theorem Postgres.epochLaw {users : String → Uuid → Slot} {kind : Kind} {realm accountId : String}
    {u : Uuid} {s₀ r f : Postgres.State}
    {past : List ((Instant × Postgres.Action) × Postgres.Outcome)}
    (hpast : Run Postgres.step Always (.initial users) past s₀)
    (hm : Postgres.Mutation kind realm accountId u s₀ r f) :
    Postgres.EpochLaw users realm accountId u s₀ r f := by
  have hs₀ := (Postgres.sound_initial users).run hpast
  constructor
  · intro tr s s' e key row hrun hstep hrealm
    exact (hm.after hs₀ hrun).found hstep hrealm
  · intro tr s s' e key payload expiresIn g grant₀ hrun he hstep hrealm hg hgrant hacc
    exact (hm.after hs₀ hrun).saved he hstep hrealm hg hgrant hacc
  · intro tr s s' e o hrun hmut hstep
    have hi : Postgres.Indexed s.db := hrun.invariant (I := fun s => Postgres.Indexed s.db)
      (fun _ _ _ _ hi _ h => hi.step h) (Postgres.indexed_initial users)
    exact (hmut.frame ((Postgres.frozen_initial users).run hrun) hstep).queries (hi.step hstep)

/-- **Account epochs.** Both adapters keep the law, for every mutation in every run. -/
theorem account_epoch {kind : Kind} {realm accountId : String} :
    (∀ {users past s₀ r f}, Run Memory.step Always (.initial users) past s₀ →
      Memory.Mutation kind realm accountId s₀ r f →
      Memory.EpochLaw users realm accountId s₀ r f) ∧
    (∀ {users past u s₀ r f}, Run Postgres.step Always (.initial users) past s₀ →
      Postgres.Mutation kind realm accountId u s₀ r f →
      Postgres.EpochLaw users realm accountId u s₀ r f) :=
  ⟨Memory.epochLaw, Postgres.epochLaw⟩

/-! ## The edge -/

/-- A clock that stands still. -/
def noon : Instant := ⟨43200000, by decide⟩

def alice : Uuid := ⟨"a11ce000-0000-4000-8000-000000000000", by decide⟩

def bob : Uuid := ⟨"b0b00000-0000-4000-8000-000000000000", by decide⟩

def grant : Key := ⟨"master", "Grant", "g"⟩

def token : Key := ⟨"master", "AccessToken", "t"⟩

def boundTo (u : Uuid) : Payload := { accountId := some u.text }

def underGrant : Payload := { grantId := some "g" }

/-- A token is saved under a Grant of Bob, whose identifier is then used for a Grant of
Alice. While Alice's account is being mutated that Grant is destroyed. -/
theorem memory_run : ∃ past s₀ r f s s' ref payload,
    Run Memory.step Always (.initial fun _ _ => .live ⟨true, 0⟩) past s₀ ∧
    Memory.Mutation .mutate "master" alice.text s₀ r f ∧
    Memory.step f (noon, .find "master" "AccessToken" (.id "t")) = some (s, f.tick, .suspended) ∧
    Memory.step s (noon, .resume f.tick) = some (s', f.tick, .found token ref payload) ∧
    s₀.store.get? token = some ref ∧ Memory.doomed s₀ "master" alice.text token ref = true := by
  have hpast : Run Memory.step Always (.initial fun _ _ => .live ⟨true, 0⟩)
      [((noon, .upsert grant (boundTo bob) none), 0, .suspended),
        ((noon, .resume 0), 0, .saved grant),
        ((noon, .upsert token underGrant none), 2, .suspended),
        ((noon, .resume 2), 2, .suspended), ((noon, .resume 2), 2, .saved token),
        ((noon, .upsert grant (boundTo alice) none), 5, .suspended),
        ((noon, .resume 5), 5, .saved grant)] _ :=
    .cons trivial rfl (.cons trivial rfl (.cons trivial rfl (.cons trivial rfl
      (.cons trivial rfl (.cons trivial rfl (.cons trivial rfl (.nil _)))))))
  have hdestroy : ∀ {s}, Run Memory.step Always s [((noon, .destroy grant), s.tick, .done)]
      (Memory.destroy s grant).tock := .single trivial rfl
  refine ⟨_, _, _, _, _, _, _, _, hpast, .intro
    (rfl : (noon, Memory.Action.mutation .mutate "master" alice.text).2 = _) rfl hdestroy
    ⟨rfl, (rfl : (noon, Memory.Action.resume _).2 = _), rfl⟩ (.nil _)
    ⟨rfl, (rfl : (noon, Memory.Action.resume _).2 = _), rfl⟩ (.nil _)
    ⟨rfl, (rfl : (noon, Memory.Action.resume _).2 = _), rfl⟩, rfl, rfl, rfl, rfl⟩

/-- The same on PostgreSQL. -/
theorem postgres_run : ∃ past s₀ r f s' row,
    Run Postgres.step Always (.initial fun _ _ => .live ⟨true, 0⟩) past s₀ ∧
    Postgres.Mutation .mutate "master" alice.text alice s₀ r f ∧
    Postgres.step f (noon, .run (.find "master" "AccessToken" (.id "t"))) =
      some (s', .found (some (token, row))) ∧
    s₀.db.records.get? token = some row ∧
    Postgres.doomed s₀.db "master" alice.text token row = true := by
  have hpast : Run Postgres.step Always (.initial fun _ _ => .live ⟨true, 0⟩)
      [((noon, .run (.upsert grant (boundTo bob) none)), .done),
        ((noon, .run (.upsert token underGrant none)), .done),
        ((noon, .run (.upsert grant (boundTo alice) none)), .done)] _ :=
    .cons trivial rfl (.cons trivial rfl (.cons trivial rfl (.nil _)))
  refine ⟨_, _, _, _, ?state, ?row, hpast, .intro (Uuid.parse_text alice)
    (rfl : (noon, Postgres.Action.start .mutate "master" alice.text).2 = _) rfl
    (.cons trivial (rfl : Postgres.step _ (noon, .run (.destroy grant)) = _)
      (.cons trivial (rfl : Postgres.step _ (noon, .txn 3 .bump) = _) (.nil _)))
    (rfl : (noon, Postgres.Action.txn 3 .revoke).2 = _) rfl (.nil _)
    (rfl : (noon, Postgres.Action.txn 3 .commit).2 = _) rfl, ?find, ?stored, ?doomed⟩
  case find => rfl
  case stored => rfl
  case doomed => rfl

/-- The law is not that every artifact which was bound to the account is lost: in both
adapters the token was bound to Alice by its Grant when the mutation of her account
started, and a query that starts after the mutation finds it. -/
theorem revoked_artifact_found :
    (∃ past s₀ r f s s' call ref payload,
      Run Memory.step Always (.initial fun _ _ => .live ⟨true, 0⟩) past s₀ ∧
      Memory.Mutation .mutate "master" alice.text s₀ r f ∧
      (∃ tr, Run Memory.step Always f tr s) ∧ f.tick ≤ call ∧
      Memory.step s (noon, .resume call) = some (s', call, .found token ref payload) ∧
      s₀.store.get? token = some ref ∧
      Memory.doomed s₀ "master" alice.text token ref = true) ∧
    (∃ past s₀ r f s' row,
      Run Postgres.step Always (.initial fun _ _ => .live ⟨true, 0⟩) past s₀ ∧
      Postgres.Mutation .mutate "master" alice.text alice s₀ r f ∧
      Postgres.step f (noon, .run (.find "master" "AccessToken" (.id "t"))) =
        some (s', .found (some (token, row))) ∧
      s₀.db.records.get? token = some row ∧
      Postgres.doomed s₀.db "master" alice.text token row = true) := by
  refine ⟨?_, postgres_run⟩
  obtain ⟨past, s₀, r, f, s, s', ref, payload, hpast, hm, hfind, hfound, hstore, hdoomed⟩ :=
    memory_run
  exact ⟨past, s₀, r, f, s, s', f.tick, ref, payload, hpast, hm, ⟨_, .single trivial hfind⟩,
    Nat.le_refl _, hfound, hstore, hdoomed⟩

/-- The law, for the same runs. -/
theorem account_epoch_runs :
    (∃ s₀ r f, Memory.EpochLaw (fun _ _ => .live ⟨true, 0⟩) "master" alice.text s₀ r f) ∧
    ∃ s₀ r f, Postgres.EpochLaw (fun _ _ => .live ⟨true, 0⟩) "master" alice.text alice s₀ r f := by
  obtain ⟨_, s₀, r, f, _, _, _, _, hpast, hm, -⟩ := memory_run
  obtain ⟨_, s₀', r', f', _, _, hpast', hm', -⟩ := postgres_run
  exact ⟨⟨s₀, r, f, account_epoch.1 hpast hm⟩, s₀', r', f', account_epoch.2 hpast' hm'⟩

end AuthMe.Adapters

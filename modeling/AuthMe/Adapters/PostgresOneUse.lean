import AuthMe.Adapters.PostgresStep

/-!
# One-use artifacts on PostgreSQL

An artifact is redeemed when a `consume`, or the claim of an initial access token,
updates its row. From the creation of a row to its deletion, the row is redeemed at most
once, and no later statement hides the redemption.
-/

namespace AuthMe.Adapters.Postgres

/-- The entry of a trace is a query that returns this row of the artifact. -/
def Finds (key : Key) (x : (Instant × Action) × Outcome) (row : OidcRow) : Prop :=
  x.2 = .found (some (key, row))

/-! ## Redemption -/

/-- The artifact has been redeemed, and the time of it is a real time. It says nothing
once the row is gone. -/
def Redeemed (key : Key) (s : State) : Prop :=
  ∀ row, s.db.records.get? key = some row → ∃ t : Instant, row.consumedAt = some t.ms

/-- The row exists. -/
def Exists (key : Key) (s : State) (_ : Instant × Action) : Prop :=
  (s.db.records.get? key).isSome

instance (key : Key) (s : State) (e : Instant × Action) : Decidable (Exists key s e) :=
  inferInstanceAs (Decidable (_ = true))

theorem not_redeemed_of_redeems {s s' : State} {e : Instant × Action} {o : Outcome} {key : Key}
    (h : step s e = some (s', o)) (hr : redeems key (e, o) = true) : ¬ Redeemed key s := by
  intro hred
  cases step_change h key with
  | kept _ hr' => simp [hr] at hr'
  | removed _ hr' => simp [hr] at hr'
  | saved => cases hr
  | redeemed hrow hfree =>
    obtain ⟨t, ht⟩ := hred _ hrow
    rw [hfree] at ht
    cases ht

theorem redeemed_of_redeems {s s' : State} {e : Instant × Action} {o : Outcome} {key : Key}
    (h : step s e = some (s', o)) (hr : redeems key (e, o) = true) : Redeemed key s' := by
  cases step_change h key with
  | kept _ hr' => simp [hr] at hr'
  | removed _ hr' => simp [hr] at hr'
  | saved => cases hr
  | redeemed hrow hfree hrow' =>
    intro row hget
    obtain rfl := Option.some.inj (hrow'.symm.trans hget)
    exact ⟨_, rfl⟩

/-- No step takes the redemption back while the row exists. -/
theorem Redeemed.keep {s s' : State} {e : Instant × Action} {o : Outcome} {key : Key}
    (hred : Redeemed key s) (hrow : Exists key s e) (h : step s e = some (s', o)) :
    Redeemed key s' := by
  intro row' hget
  obtain ⟨row, hold⟩ := Option.isSome_iff_exists.mp hrow
  obtain ⟨t, ht⟩ := hred row hold
  cases step_change h key with
  | kept hkeep => exact ⟨t, by rw [hkeep, hold] at hget; cases hget; exact ht⟩
  | removed hnone => simp [hnone] at hget
  | saved hup =>
    obtain ⟨new, hwritten, hdb⟩ := upsert_eq_ok hup
    rw [hdb, OrderedMap.get?_set_self] at hget
    cases hget
    exact ⟨t, by rw [hwritten.consumed hold (by simp [ht]), ht]⟩
  | redeemed hrow' hfree =>
    rw [hold] at hrow'
    cases hrow'
    rw [hfree] at ht
    cases ht

/-- A redeemed row is shown as consumed. -/
theorem isConsumed_restorePayload {row : OidcRow} {t : Instant} (h : row.consumedAt = some t.ms) :
    (restorePayload row).isConsumed = true := by
  have hpos := t.seconds_pos
  simp only [restorePayload, h, Payload.isConsumed, decide_eq_true_eq]
  exact Int.ne_of_gt hpos

theorem exists_of_finds {s s' : State} {e : Instant × Action} {o : Outcome} {key : Key}
    {row : OidcRow} (h : step s e = some (s', o)) (hf : Finds key (e, o) row) :
    s.db.records.get? key = some row := by
  obtain rfl : o = .found (some (key, row)) := hf
  obtain ⟨realm, model, column, -, hfind, -⟩ := step_eq_found h
  exact (findBy_eq_some hfind).1

/-- A run that starts with a redeemed row shows it as consumed in every query. -/
theorem Redeemed.found {s s' : State} {tr : List ((Instant × Action) × Outcome)} {key : Key}
    (hrun : Transition.Run step (Exists key) s tr s') (hred : Redeemed key s) :
    ∀ x ∈ tr, ∀ row, Finds key x row → (restorePayload row).isConsumed = true := by
  induction hrun with
  | nil => simp
  | @cons s s1 s2 e o tr hrow hstep _ ih =>
    intro x hx row hf
    rcases List.mem_cons.mp hx with rfl | hx
    · obtain ⟨t, ht⟩ := hred row (exists_of_finds hstep hf)
      exact isConsumed_restorePayload ht
    · exact ih (hred.keep hrow hstep) x hx row hf

theorem not_saves_of_exists {s s' : State} {e : Instant × Action} {o : Outcome} {key : Key}
    (hmodel : key.model = "ReplayDetection") (hrow : Exists key s e)
    (h : step s e = some (s', o)) : saves key (e, o) = false := by
  cases step_change h key with
  | kept _ _ hs => exact hs
  | removed _ _ hs => exact hs
  | redeemed _ _ _ hs => exact hs
  | saved hup =>
    obtain ⟨_, hwritten, -⟩ := upsert_eq_ok hup
    rw [Exists, hwritten.replay hmodel] at hrow
    cases hrow

/-- The life of an artifact: an `upsert` creates its row, and then any connections do
anything while the row exists, up to and with the step that removes it. -/
inductive Life (key : Key) : List ((Instant × Action) × Outcome) → Prop
  | intro {s₀ s s' : State} {e : Instant × Action} {o : Outcome}
      {tr : List ((Instant × Action) × Outcome)} (hnew : s₀.db.records.get? key = none)
      (hstep : step s₀ e = some (s, o)) (hsave : saves key (e, o) = true)
      (hrun : Transition.Run step (Exists key) s tr s') : Life key ((e, o) :: tr)

theorem redeems_of_saves {key : Key} {x : (Instant × Action) × Outcome}
    (h : saves key x = true) : redeems key x = false := by
  obtain ⟨⟨now, action⟩, o⟩ := x
  unfold saves at h
  split at h
  · rename_i heq
    cases heq
    rfl
  · cases h

/-- **One-use artifacts.** In the life of an artifact it is redeemed at most once, every
query after the redemption that returns it shows it as consumed, and for
`ReplayDetection` at most one `upsert` succeeds. -/
theorem one_use_artifact {key : Key} {tr : List ((Instant × Action) × Outcome)} (hlife : Life key tr) :
    tr.countP (redeems key) ≤ 1 ∧
      (∀ before x after, tr = before ++ x :: after → redeems key x = true →
        ∀ y ∈ after, ∀ row, Finds key y row → (restorePayload row).isConsumed = true) ∧
      (key.model = "ReplayDetection" → tr.countP (saves key) ≤ 1) := by
  obtain ⟨hnew, hcreate, hsave, hrun⟩ := hlife
  rename_i s₀ s s' e o tr
  have hfirst := redeems_of_saves hsave
  refine ⟨?_, ?_, ?_⟩
  · rw [List.countP_cons_of_neg (by simp [hfirst])]
    exact hrun.count_le_one (I := fun _ => True) (F := Redeemed key)
      (fun _ _ _ _ _ _ _ => trivial)
      (fun _ _ _ _ _ _ h hr => not_redeemed_of_redeems h hr)
      (fun _ _ _ _ _ _ h hr => redeemed_of_redeems h hr)
      (fun _ _ _ _ _ hrow h hred => hred.keep hrow h) trivial
  · intro before x after htr hr
    cases before with
    | nil =>
      cases htr
      rw [hfirst] at hr
      cases hr
    | cons y before =>
      cases htr
      obtain ⟨m, m', -, -, hstep, hafter⟩ := hrun.split_at
      exact Redeemed.found hafter (redeemed_of_redeems hstep hr)
  · intro hmodel
    have hnone : tr.countP (saves key) = 0 :=
      hrun.count_eq_zero (I := fun _ => True) (F := fun _ => True)
        (fun _ _ _ _ _ _ _ => trivial)
        (fun _ _ _ _ _ hrow h hs => by
          rw [not_saves_of_exists hmodel hrow h] at hs
          cases hs)
        (fun _ _ _ _ _ _ _ _ => trivial) trivial trivial
    exact Nat.le_of_eq (by rw [List.countP_cons_of_pos hsave, hnone])

/-- A refresh token that is consumed, and saved again by a request that read it before. -/
def savedAgain : List ((Instant × Action) × Outcome) :=
  let key : Key := ⟨"master", "RefreshToken", "token"⟩
  [((⟨5000, by decide⟩, .run (.upsert key {} (some 60000))), .done),
    ((⟨5010, by decide⟩, .run (.consume key)), .done),
    ((⟨5020, by decide⟩, .run (.upsert key {} (some 60000))), .done),
    ((⟨5030, by decide⟩, .run (.consume key)),
      .failed (.invalidGrant "one-use grant artifact was already consumed"))]

theorem life_savedAgain : Life ⟨"master", "RefreshToken", "token"⟩ savedAgain := by
  have hnew : (State.initial fun _ _ => .unused).db.records.get?
      ⟨"master", "RefreshToken", "token"⟩ = none := rfl
  exact .intro hnew rfl rfl (.cons rfl rfl (.cons rfl rfl (.cons rfl rfl (.nil _))))

theorem one_use_artifact_savedAgain :
    savedAgain.countP (redeems ⟨"master", "RefreshToken", "token"⟩) ≤ 1 :=
  (one_use_artifact life_savedAgain).1

end AuthMe.Adapters.Postgres

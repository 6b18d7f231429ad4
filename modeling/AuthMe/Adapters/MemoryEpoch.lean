import AuthMe.Adapters.MemoryStep

/-!
# Account epochs in the in-memory adapter

What a mutation of an account leaves behind. `Sound` is the invariant of all runs: a
version that an object or a suspended call carries has been current. So when the mutation
has read the account, no copy is newer than its version (`Old`), and once it has changed
the account that version is over.

* `Old`: what was called before the mutation carries an old version, for ever.
* `Late`: what starts after the change reads no old version.
* `Gone`: an object that has left the buckets does not come back.
-/

namespace AuthMe.Adapters.Memory

open Epoch (Cell)

/-- The invariant of all runs. -/
structure Sound (s : State) : Prop where
  wf : Wf s
  stored : ∀ {key ref r}, s.store.get? key = some ref → s.heap ref = some r → r.key = key
  called : ∀ {ref r}, s.heap ref = some r → r.called < s.tick
  bound : ∀ {ref r a}, s.heap ref = some r → r.payload.accountId = some a →
    ∃ v, r.securityVersion = some v ∧ Seen (s.users r.key.realm a) v
  parent : ∀ {call key next expiresIn ref version},
    s.calls call = some (.upsertParent key next expiresIn ref version) →
    next.grantId.isSome ∧ ∃ p, s.heap ref = some p ∧ p.key.realm = key.realm ∧ p.called < call
  own : ∀ {call key next expiresIn ref version},
    s.calls call = some (.upsertOwn key next expiresIn (some ref) version) →
    next.grantId.isSome ∧ ∃ p, s.heap ref = some p ∧ p.key.realm = key.realm ∧
      p.called < call ∧ p.payload.accountId = next.accountId
  free : ∀ {call key next expiresIn version},
    s.calls call = some (.upsertOwn key next expiresIn none version) →
    next.grantId = none ∧ ∀ {a v}, next.accountId = some a → version = some v →
      Seen (s.users key.realm a) v
  find : ∀ {call key ref version}, s.calls call = some (.find key ref version) →
    ∃ r, s.heap ref = some r ∧ r.key = key

theorem sound_initial (users : String → String → Slot) : Sound (.initial users) where
  wf := wf_initial users
  stored h := by cases h
  called h := by cases h
  bound h := by cases h
  parent h := by cases h
  own h := by cases h
  free h := by cases h
  find h := by cases h

/-- Time goes forwards for every user. -/
theorem Move.users {s s₁ : State} {now : Instant} {a : Action} {call : Nat} {o : Outcome}
    (h : Move s now a s₁ call o) (realm accountId : String) :
    Cell.Le Account.securityVersion (s.users realm accountId) (s₁.users realm accountId) := by
  have hset : ∀ {r b slot}, Cell.Le Account.securityVersion (s.users r b) slot →
      Cell.Le Account.securityVersion (s.users realm accountId)
        ((s.withUser r b slot).users realm accountId) := by
    intro r b slot hle
    by_cases hu : realm = r ∧ accountId = b
    · simpa [State.withUser, hu] using hle
    · simp [State.withUser, hu, Cell.Le.refl]
  cases h with
  | changed hcall hle => exact hset hle
  | user hle => exact hset hle
  | ended | awaits | saved | foundFree | found | redeemed | removed | revoked => exact .refl _

/-- The account of an object that is being saved, and its version. -/
theorem Sound.born {s : State} (hs : Sound s) {now : Instant} {a : Action} {call : Nat}
    {r : Record} (h : Born s now a call r) {accountId : String}
    (hacc : r.payload.accountId = some accountId) :
    ∃ v, r.securityVersion = some v ∧
      ((r.payload.grantId = none ∧ ∃ expiresIn,
          s.calls call = some (.upsertOwn r.key r.payload expiresIn none (some v))) ∨
        ∃ g ref p expiresIn, r.payload.grantId = some g ∧
          s.calls call = some (.upsertOwn r.key r.payload expiresIn (some ref) (some v)) ∧
          s.store.get? ⟨r.key.realm, "Grant", g⟩ = some ref ∧ s.heap ref = some p ∧
          p.key.realm = r.key.realm ∧ p.called < call ∧ p.payload.accountId = some accountId ∧
          p.securityVersion = some v) := by
  obtain ⟨hdecided, hown, hparent⟩ := h
  rename_i key expiresIn next parent version
  dsimp only at hacc ⊢
  obtain ⟨v, rfl⟩ := Option.isSome_iff_exists.mp (hown (by simp [hacc]))
  refine ⟨v, rfl, ?_⟩
  cases hdecided with
  | owned hcall =>
    cases parent with
    | none => exact .inl ⟨(hs.free hcall).1, expiresIn, hcall⟩
    | some ref =>
      obtain ⟨hgrant, p, hp, hrealm, hcalled, hpacc⟩ := hs.own hcall
      obtain ⟨g, hg⟩ := Option.isSome_iff_exists.mp hgrant
      obtain ⟨hfst, hversion⟩ := hparent g hg
      obtain ⟨⟨ref', p'⟩, hlive, rfl⟩ := Option.map_eq_some_iff.mp hfst
      obtain ⟨hstore, hheap⟩ := record?_eq_some.mp (live?_eq_some.mp hlive).1
      cases hp.symm.trans hheap
      rw [hlive] at hversion
      exact .inr ⟨g, ref', p, expiresIn, hg, hcall, hstore, hp, hrealm, hcalled,
        by rw [hpacc, hacc], hversion⟩

theorem Ready.grant {s : State} (hs : Sound s) {now : Instant} {key : Key}
    {expiresIn : Option Int} {a : Action} {call : Nat} {next : Payload} {parent : Option Nat}
    (h : Ready s now key expiresIn a call next parent) :
    (parent = none ∧ next.grantId = none ∧ call = s.tick) ∨
      ∃ ref p, parent = some ref ∧ next.grantId.isSome ∧ s.heap ref = some p ∧
        p.key.realm = key.realm ∧ p.called < call ∧ p.payload.accountId = next.accountId := by
  cases h with
  | fresh hreplay hgrant => exact .inl ⟨rfl, hgrant, rfl⟩
  | parent hcall hp =>
    obtain ⟨hgrant, p, hp', hrealm, hcalled⟩ := hs.parent hcall
    cases hp.symm.trans hp'
    exact .inr ⟨_, _, rfl, hgrant, hp, hrealm, hcalled, rfl⟩

theorem Move.sound {s s₁ : State} {now : Instant} {a : Action} {call : Nat} {o : Outcome}
    (h : Move s now a s₁ call o) (hs : Sound s) : Sound s₁.tock where
  wf := h.wf hs.wf
  stored {key ref r} hstore hr := by
    rcases h.store hstore with hold | ⟨rfl, -, r', hr', hkey⟩
    · obtain ⟨r₀, hr₀⟩ := hs.wf.store hold
      obtain ⟨r', hr', hsame⟩ := h.heap_kept hs.wf hr₀
      cases hr.symm.trans hr'
      rw [hsame.key, hs.stored hold hr₀]
    · cases hr.symm.trans hr'
      exact hkey
  called {ref r} hr := by
    rw [h.tick]
    rcases h.heap hr with ⟨r₀, hr₀, hsame⟩ | ⟨-, hborn⟩
    · rw [hsame.called]
      exact Nat.lt_succ_of_lt (hs.called hr₀)
    · cases hborn with
      | intro hdecided =>
        exact Nat.lt_succ_of_le (hdecided.call_le hs.wf)
  bound {ref r accountId} hr hacc := by
    have hmono := h.users r.key.realm accountId
    rcases h.heap hr with ⟨r₀, hr₀, hsame⟩ | ⟨-, hborn⟩
    · rw [hsame.accountId] at hacc
      obtain ⟨v, hv, hseen⟩ := hs.bound hr₀ hacc
      rw [hsame.key] at hmono ⊢
      exact ⟨v, by rw [hsame.securityVersion, hv], hseen.mono hmono⟩
    · obtain ⟨v, hv, ⟨-, _, hcall⟩ | ⟨_, _, p, _, -, -, -, hp, hrealm, -, hpacc, hpv⟩⟩ :=
        hs.born hborn hacc
      · exact ⟨v, hv, ((hs.free hcall).2 hacc rfl).mono hmono⟩
      · obtain ⟨v', hv', hseen⟩ := hs.bound hp hpacc
        cases hpv.symm.trans hv'
        rw [hrealm] at hseen
        exact ⟨v, hv, hseen.mono hmono⟩
  parent hc := by
    have hkeep : ∀ {ref p}, s.heap ref = some p → _ := fun hp => h.heap_kept hs.wf hp
    rcases h.calls hc with ⟨hold, -⟩ | ⟨rfl, -, hawaits | ⟨_, _, _, _, hc⟩⟩
    · obtain ⟨hgrant, p, hp, hrealm, hcalled⟩ := hs.parent hold
      obtain ⟨p', hp', hsame⟩ := hkeep hp
      exact ⟨hgrant, p', hp', by rw [hsame.key, hrealm], by rw [hsame.called]; exact hcalled⟩
    · cases hawaits with
      | parent hreplay hgrant hparent hacc =>
        obtain ⟨hstore, hp⟩ := record?_eq_some.mp (live?_eq_some.mp hparent).1
        obtain ⟨p', hp', hsame⟩ := hkeep hp
        exact ⟨by simp [hgrant], p', hp', by rw [hsame.key, hs.stored hstore hp],
          by rw [hsame.called]; exact hs.called hp⟩
    · cases hc
  own hc := by
    have hkeep : ∀ {ref p}, s.heap ref = some p → _ := fun hp => h.heap_kept hs.wf hp
    rcases h.calls hc with ⟨hold, -⟩ | ⟨rfl, -, hawaits | ⟨_, _, _, _, hc⟩⟩
    · obtain ⟨hgrant, p, hp, hrealm, hcalled, hacc⟩ := hs.own hold
      obtain ⟨p', hp', hsame⟩ := hkeep hp
      exact ⟨hgrant, p', hp', by rw [hsame.key, hrealm], by rw [hsame.called]; exact hcalled,
        by rw [hsame.accountId, hacc]⟩
    · cases hawaits with
      | own hready hacc =>
        rcases hready.grant hs with ⟨hnone, -⟩ | ⟨ref, p, heq, hgrant, hp, hrealm, hcalled, hpacc⟩
        · cases hnone
        · cases heq
          obtain ⟨p', hp', hsame⟩ := hkeep hp
          exact ⟨hgrant, p', hp', by rw [hsame.key, hrealm],
            by rw [hsame.called]; exact hcalled, by rw [hsame.accountId, hpacc]⟩
    · cases hc
  free {call' key next expiresIn version} hc := by
    rcases h.calls hc with ⟨hold, -⟩ | ⟨rfl, -, hawaits | ⟨_, _, _, _, hc⟩⟩
    · obtain ⟨hgrant, hseen⟩ := hs.free hold
      exact ⟨hgrant, fun {a v} hacc hv => (hseen hacc hv).mono (h.users key.realm a)⟩
    · cases hawaits with
      | own hready hacc =>
        rcases hready.grant hs with ⟨-, hgrant, -⟩ | ⟨_, _, hnone, -⟩
        · refine ⟨hgrant, fun {a' v} hacc' hv => ?_⟩
          cases hacc.symm.trans hacc'
          exact (seen_of_enabledVersion hv).mono (h.users key.realm _)
        · cases hnone
    · cases hc
  find hc := by
    have hkeep : ∀ {ref p}, s.heap ref = some p → _ := fun hp => h.heap_kept hs.wf hp
    rcases h.calls hc with ⟨hold, -⟩ | ⟨rfl, -, hawaits | ⟨_, _, _, _, hc⟩⟩
    · obtain ⟨r, hr, hkey⟩ := hs.find hold
      obtain ⟨r', hr', hsame⟩ := hkeep hr
      exact ⟨r', hr', by rw [hsame.key, hkey]⟩
    · cases hawaits with
      | find hselect =>
        obtain ⟨hstore, hr⟩ := record?_eq_some.mp (select_eq_some hselect).1
        obtain ⟨r', hr', hsame⟩ := hkeep hr
        exact ⟨r', hr', by rw [hsame.key, hs.stored hstore hr]⟩
    · cases hc

theorem Sound.step {s s' : State} {e : Instant × Action} {x : Nat × Outcome} (hs : Sound s)
    (h : step s e = some (s', x)) : Sound s' := by
  obtain ⟨s₁, rfl, -, hmove⟩ := step_move h
  exact hmove.sound hs

/-! ## What was called before the mutation -/

/-- What was called no later than call `n` carries no version of the account above `V`. -/
structure Old (realm accountId : String) (n V : Nat) (s : State) : Prop where
  later : n < s.tick
  record : ∀ {ref r}, s.heap ref = some r → r.key.realm = realm →
    r.payload.accountId = some accountId → r.called ≤ n → ∃ v, r.securityVersion = some v ∧ v ≤ V
  own : ∀ {call key next expiresIn v}, call ≤ n →
    s.calls call = some (.upsertOwn key next expiresIn none (some v)) → key.realm = realm →
    next.accountId = some accountId → v ≤ V

theorem Old.move {realm accountId : String} {n V : Nat} {s s₁ : State} {now : Instant} {a : Action}
    {call : Nat} {o : Outcome} (hold : Old realm accountId n V s) (hs : Sound s)
    (h : Move s now a s₁ call o) : Old realm accountId n V s₁.tock where
  later := by
    rw [h.tick]
    exact Nat.lt_succ_of_lt hold.later
  record {ref r} hr hrealm hacc hcalled := by
    rcases h.heap hr with ⟨r₀, hr₀, hsame⟩ | ⟨-, hborn⟩
    · rw [hsame.key] at hrealm
      rw [hsame.accountId] at hacc
      rw [hsame.called] at hcalled
      rw [hsame.securityVersion]
      exact hold.record hr₀ hrealm hacc hcalled
    · have hcall : r.called = call := by
        cases hborn
        rfl
      rw [hcall] at hcalled
      obtain ⟨v, hv, ⟨-, _, hown⟩ | ⟨_, _, p, _, -, -, -, hp, hprealm, hpcalled, hpacc, hpv⟩⟩ :=
        hs.born hborn hacc
      · exact ⟨v, hv, hold.own hcalled hown hrealm hacc⟩
      · -- the version is the parent's, and the parent is older still
        obtain ⟨v', hv', hle⟩ := hold.record hp (hprealm.trans hrealm) hpacc
          (Nat.le_of_lt (Nat.lt_of_lt_of_le hpcalled hcalled))
        cases hpv.symm.trans hv'
        exact ⟨v, hv, hle⟩
  own {call' key next expiresIn v} hle hc hrealm hacc := by
    rcases h.calls hc with ⟨hc₀, -⟩ | ⟨rfl, -, hawaits | ⟨_, _, _, _, hc⟩⟩
    · exact hold.own hle hc₀ hrealm hacc
    · generalize some v = version at hawaits
      cases hawaits with
      | own hready =>
        rcases hready.grant hs with ⟨-, -, htick⟩ | ⟨_, _, hnone, -⟩
        · have := hold.later
          omega
        · cases hnone
    · cases hc

/-- When the mutation has read the account, no copy is newer than its version. -/
theorem Sound.old {realm accountId : String} {n : Nat} {s : State} {row : Account} (hs : Sound s)
    (hn : n < s.tick) (hrow : s.users realm accountId = .live row) :
    Old realm accountId n row.securityVersion s where
  later := hn
  record {ref r} hr hrealm hacc _ := by
    obtain ⟨v, hv, hseen⟩ := hs.bound hr hacc
    rw [hrealm, hrow] at hseen
    exact ⟨v, hv, hseen⟩
  own {call key next expiresIn v} _ hc hrealm hacc := by
    have hseen := (hs.free hc).2 hacc rfl
    rw [hrealm, hrow] at hseen
    exact hseen

/-! ## What starts after the change -/

/-- The version `V` of the account is over. From step `m` on, the queries, and the saves
whose parent was saved after step `m`, have read a newer version. -/
structure Late (realm accountId : String) (m V : Nat) (s : State) : Prop where
  past : Past (s.users realm accountId) V
  find : ∀ {call key ref r v}, m ≤ call → s.calls call = some (.find key ref (some v)) →
    key.realm = realm → s.heap ref = some r → r.payload.accountId = some accountId → V < v
  own : ∀ {call key next expiresIn ref v}, m ≤ ref →
    s.calls call = some (.upsertOwn key next expiresIn (some ref) (some v)) → key.realm = realm →
    next.accountId = some accountId → V < v

theorem Sound.late {realm accountId : String} {V : Nat} {s : State} (hs : Sound s)
    (hpast : Past (s.users realm accountId) V) : Late realm accountId s.tick V s where
  past := hpast
  find hm hc := absurd (hs.wf.calls_lt hc) (Nat.not_lt.mpr hm)
  own hm hc := by
    obtain ⟨-, p, hp, -⟩ := hs.own hc
    exact absurd (hs.wf.heap_lt hp) (Nat.not_lt.mpr hm)

theorem Late.move {realm accountId : String} {m V : Nat} {s s₁ : State} {now : Instant}
    {a : Action} {call : Nat} {o : Outcome} (hlate : Late realm accountId m V s) (hs : Sound s)
    (h : Move s now a s₁ call o) : Late realm accountId m V s₁.tock where
  past := hlate.past.mono (h.users realm accountId)
  find {call' key ref r v} hm hc hrealm hr hacc := by
    have hobject : ∀ {r₀}, s.heap ref = some r₀ → r₀.payload.accountId = some accountId := by
      intro r₀ hr₀
      obtain ⟨r', hr', hsame⟩ := h.heap_kept hs.wf hr₀
      cases hr.symm.trans hr'
      rw [← hsame.accountId, hacc]
    rcases h.calls hc with ⟨hc₀, -⟩ | ⟨rfl, -, hawaits | ⟨_, _, _, _, hc⟩⟩
    · obtain ⟨r₀, hr₀, -⟩ := hs.find hc₀
      exact hlate.find hm hc₀ hrealm hr₀ (hobject hr₀)
    · generalize hversion : some v = version at hawaits
      cases hawaits with
      | find hselect =>
        obtain ⟨hrec, hkey, -⟩ := select_eq_some hselect
        rw [hobject (record?_eq_some.mp hrec).2, ← hkey, hrealm] at hversion
        exact lt_of_past hlate.past hversion.symm
    · cases hc
  own {call' key next expiresIn ref v} hm hc hrealm hacc := by
    rcases h.calls hc with ⟨hc₀, -⟩ | ⟨rfl, -, hawaits | ⟨_, _, _, _, hc⟩⟩
    · exact hlate.own hm hc₀ hrealm hacc
    · generalize hversion : some v = version at hawaits
      cases hawaits with
      | own hready hacc' =>
        cases hacc.symm.trans hacc'
        rw [hrealm] at hversion
        exact lt_of_past hlate.past hversion.symm
    · cases hc

/-! ## Objects that have left the buckets -/

/-- The object is in no bucket, and no query that started from step `m` on has it. -/
structure Gone (ref m : Nat) (s : State) : Prop where
  older : ref < s.tick
  store : ∀ key, s.store.get? key ≠ some ref
  find : ∀ {call key version}, m ≤ call → s.calls call ≠ some (.find key ref version)

theorem Gone.move {ref m : Nat} {s s₁ : State} {now : Instant} {a : Action} {call : Nat}
    {o : Outcome} (hgone : Gone ref m s) (h : Move s now a s₁ call o) : Gone ref m s₁.tock where
  older := by
    rw [h.tick]
    exact Nat.lt_succ_of_lt hgone.older
  store key hstore := by
    rcases h.store hstore with hold | ⟨href, -⟩
    · exact hgone.store key hold
    · exact absurd hgone.older (by rw [href]; exact Nat.lt_irrefl _)
  find hm hc := by
    rcases h.calls hc with ⟨hc₀, -⟩ | ⟨rfl, -, hawaits | ⟨_, _, _, _, hc⟩⟩
    · exact hgone.find hm hc₀
    · cases hawaits with
      | find hselect =>
        exact hgone.store _ (record?_eq_some.mp (select_eq_some hselect).1).1
    · cases hc

/-- `revokeMemoryAccount` removes the objects of the account and of its Grants. -/
theorem gone_of_doomed {realm accountId : String} {s : State} (hs : Sound s) {call : Nat} {c : Call}
    (hc : ∀ key ref version, c ≠ .find key ref version) {ref : Nat} {r : Record}
    (hr : s.heap ref = some r) (hdoomed : doomed s realm accountId r.key ref = true) :
    Gone ref (s.tick + 1) ((revokeAccount s realm accountId).suspend call c).tock where
  older := Nat.lt_succ_of_lt (hs.wf.heap_lt hr)
  store key hstore := by
    have hget : ((s.store.filter fun key ref => !doomed s realm accountId key ref).get? key) =
        some ref := hstore
    rw [OrderedMap.get?_filter] at hget
    obtain ⟨hold, hp⟩ := Option.filter_eq_some_iff.mp hget
    rw [hs.stored hold hr] at hdoomed
    simp [hdoomed] at hp
  find hm hf := by
    rcases update_eq_some hf with ⟨-, hf⟩ | ⟨-, hf⟩
    · exact absurd (hs.wf.calls_lt hf) (by omega)
    · cases hf
      exact hc _ _ _ rfl

/-! ## Runs -/

theorem Record.Same.trans {r r' r'' : Record} (h : r.Same r') (h' : r'.Same r'') : r.Same r'' where
  key := h'.key.trans h.key
  called := h'.called.trans h.called
  securityVersion := h'.securityVersion.trans h.securityVersion
  accountId := h'.accountId.trans h.accountId
  grantId := h'.grantId.trans h.grantId
  consumed hc := h'.consumed (h.consumed hc)

/-- What changes from a state to a later one: objects and bucket entries are added under
new numbers, objects keep what never changes, and users move forwards. -/
structure Grown (s s' : State) : Prop where
  tick : s.tick ≤ s'.tick
  store : ∀ {key ref}, s'.store.get? key = some ref → s.store.get? key = some ref ∨ s.tick ≤ ref
  heap : ∀ {ref r'}, s'.heap ref = some r' → (∃ r, s.heap ref = some r ∧ r.Same r') ∨ s.tick ≤ ref
  users : ∀ realm accountId,
    Cell.Le Account.securityVersion (s.users realm accountId) (s'.users realm accountId)

theorem Grown.refl (s : State) : Grown s s :=
  ⟨Nat.le_refl _, .inl, fun h => .inl ⟨_, h, .refl _⟩, fun _ _ => .refl _⟩

theorem Grown.trans {s s' s'' : State} (h : Grown s s') (h' : Grown s' s'') : Grown s s'' where
  tick := Nat.le_trans h.tick h'.tick
  store hstore := by
    rcases h'.store hstore with hstore | hle
    · exact h.store hstore
    · exact .inr (Nat.le_trans h.tick hle)
  heap hr := by
    rcases h'.heap hr with ⟨r', hr', hsame'⟩ | hle
    · rcases h.heap hr' with ⟨r, hr, hsame⟩ | hle
      · exact .inl ⟨r, hr, hsame.trans hsame'⟩
      · exact .inr hle
    · exact .inr (Nat.le_trans h.tick hle)
  users realm accountId := (h.users realm accountId).trans (h'.users realm accountId)

theorem Move.grown {s s₁ : State} {now : Instant} {a : Action} {call : Nat} {o : Outcome}
    (h : Move s now a s₁ call o) : Grown s s₁.tock where
  tick := by
    rw [h.tick]
    exact Nat.le_succ _
  store hstore := (h.store hstore).imp_right fun hnew => Nat.le_of_eq hnew.1.symm
  heap hr := (h.heap hr).imp_right fun hnew => Nat.le_of_eq hnew.1.symm
  users := h.users

theorem grown_of_step {s s' : State} {e : Instant × Action} {x : Nat × Outcome}
    (h : step s e = some (s', x)) : Grown s s' := by
  obtain ⟨s₁, rfl, -, hmove⟩ := step_move h
  exact hmove.grown

section Runs

variable {C : State → Instant × Action → Prop} {s s' : State}
  {tr : List ((Instant × Action) × Nat × Outcome)}

theorem grown_of_run (h : Transition.Run step C s tr s') : Grown s s' :=
  h.relates .refl (fun _ _ _ => .trans) fun _ _ _ _ _ => grown_of_step

theorem Sound.run (hs : Sound s) (h : Transition.Run Memory.step C s tr s') : Sound s' :=
  h.invariant (fun _ _ _ _ hs _ h => hs.step h) hs

/-- What every move from a sound state keeps, a run keeps. -/
theorem keeps_of_run {P : State → Prop}
    (hP : ∀ {s s₁ now a call o}, P s → Sound s → Move s now a s₁ call o → P s₁.tock)
    (h : Transition.Run step C s tr s') (hs : Sound s) (hp : P s) : P s' := by
  refine (h.invariant (I := fun s => Sound s ∧ P s) ?_ ⟨hs, hp⟩).2
  rintro s ⟨now, a⟩ s' ⟨call, o⟩ ⟨hs, hp⟩ _ hstep
  have hs' := hs.step hstep
  obtain ⟨s₁, rfl, -, hmove⟩ := step_move hstep
  exact ⟨hs', hP hp hs hmove⟩

end Runs

/-! ## Mutations -/

/-- The step `e` is the continuation of call `n`, a mutation at this stage. -/
structure Continues (kind : Kind) (realm accountId : String) (n : Nat) (stage : Stage) (s : State)
    (e : Instant × Action) (s' : State) (o : Outcome) : Prop where
  call : s.calls n = some (.mutation kind realm accountId stage)
  event : e.2 = .resume n
  step : step s e = some (s', n, o)

/-- An applied `mutateAccountSecurity` or `deleteAccount` in a run, with anything between
its steps: it starts in `s₀`, it revokes in `r`, and it has returned in `f`. -/
inductive Mutation (kind : Kind) (realm accountId : String) : State → State → State → Prop
  | intro {s₀ s₁ c c₁ r r₁ f₁ f : State} {e₀ e₁ e₂ e₃ : Instant × Action}
      {tr₁ tr₂ tr₃ : List ((Instant × Action) × Nat × Outcome)}
      (hevent : e₀.2 = .mutation kind realm accountId)
      (hstart : step s₀ e₀ = some (s₁, s₀.tick, .suspended))
      (hrun₁ : Transition.Run step Transition.Always s₁ tr₁ c)
      (hchange : Continues kind realm accountId s₀.tick .begun c e₁ c₁ .suspended)
      (hrun₂ : Transition.Run step Transition.Always c₁ tr₂ r)
      (hrevoke : Continues kind realm accountId s₀.tick .changed r e₂ r₁ .suspended)
      (hrun₃ : Transition.Run step Transition.Always r₁ tr₃ f₁)
      (hreturn : Continues kind realm accountId s₀.tick .revoked f₁ e₃ f .mutated) :
      Mutation kind realm accountId s₀ r f

theorem step_resume_mutation {kind : Kind} {realm accountId : String} {n : Nat} {stage : Stage}
    {s s' : State} {e : Instant × Action} {x : Nat × Outcome}
    (hcall : s.calls n = some (.mutation kind realm accountId stage)) (he : e.2 = .resume n)
    (h : step s e = some (s', x)) :
    s' = (mutationResume s n kind realm accountId stage).1.tock ∧
      x = (n, (mutationResume s n kind realm accountId stage).2) := by
  simp only [step, he, perform, hcall, Option.map_some, resume, State.callOf, Option.some.injEq,
    Prod.mk.injEq] at h
  exact ⟨h.1.symm, h.2.symm⟩

theorem Continues.eq {kind : Kind} {realm accountId : String} {n : Nat} {stage : Stage}
    {s s' : State} {e : Instant × Action} {o : Outcome}
    (h : Continues kind realm accountId n stage s e s' o) :
    s' = (mutationResume s n kind realm accountId stage).1.tock ∧
      o = (mutationResume s n kind realm accountId stage).2 := by
  have heq := step_resume_mutation h.call h.event h.step
  exact ⟨heq.1, congrArg Prod.snd heq.2⟩

/-- The change ends every version that the account has had. -/
theorem Continues.past {kind : Kind} {realm accountId : String} {n V : Nat} {s s' : State}
    {e : Instant × Action} (h : Continues kind realm accountId n .begun s e s' .suspended)
    (hseen : Seen (s.users realm accountId) V) : Past (s'.users realm accountId) V := by
  obtain ⟨rfl, ho⟩ := h.eq
  cases kind with
  | mutate =>
    change Past (if realm = realm ∧ accountId = accountId then _ else _) V
    rw [if_pos ⟨rfl, rfl⟩]
    cases hu : s.users realm accountId with
    | unused =>
      rw [hu] at hseen
      cases hseen
    | live row =>
      rw [hu] at hseen
      exact Nat.lt_succ_of_le hseen
    | retired => trivial
  | delete =>
    simp only [mutationResume] at ho ⊢
    split at ho
    · cases ho
    · rename_i row hrow
      change Past (if realm = realm ∧ accountId = accountId then _ else _) V
      rw [if_pos ⟨rfl, rfl⟩]
      trivial

/-- What holds in every state after a mutation that started in `s₀` and revoked in `r`. -/
structure After (realm accountId : String) (s₀ r f s : State) : Prop where
  sound : Sound s
  before : Grown s₀ r
  started : ∀ {key ref}, s.store.get? key = some ref →
    s₀.store.get? key = some ref ∨ s₀.tick < ref
  order : s₀.tick < r.tick ∧ r.tick < f.tick
  revoked : Grown r s
  survived : ∀ {key ref x}, s.store.get? key = some ref → s.heap ref = some x → ref ≤ r.tick →
    ∃ x₀, r.heap ref = some x₀ ∧ x₀.Same x ∧ doomed r realm accountId key ref = false
  versions : ∃ V, Old realm accountId s₀.tick V s ∧ Late realm accountId (r.tick + 1) V s
  gone : ∀ {ref x}, r.heap ref = some x → doomed r realm accountId x.key ref = true →
    Gone ref (r.tick + 1) s

theorem Mutation.after {kind : Kind} {realm accountId : String} {s₀ r f s : State}
    {tr : List ((Instant × Action) × Nat × Outcome)} (hm : Mutation kind realm accountId s₀ r f)
    (hs₀ : Sound s₀) (hrun : Transition.Run step Transition.Always f tr s) :
    After realm accountId s₀ r f s := by
  obtain ⟨hevent, hstart, hrun₁, hchange, hrun₂, hrevoke, hrun₃, hreturn⟩ := hm
  rename_i s₁ c c₁ r₁ f₁ e₀ e₁ e₂ e₃ tr₁ tr₂ tr₃
  -- the start
  have hs₁ := hs₀.step hstart
  obtain ⟨row, hrow, hs₁eq⟩ : ∃ row, s₀.users realm accountId = .live row ∧
      s₁ = (s₀.suspend s₀.tick (.mutation kind realm accountId .begun)).tock := by
    obtain ⟨now, a⟩ := e₀
    obtain rfl : a = .mutation kind realm accountId := hevent
    obtain ⟨s', rfl, -, hmove⟩ := step_move hstart
    cases hmove with
    | ended ho => cases ho
    | redeemed _ ho => cases ho
    | awaits h =>
      cases h with
      | own hready => cases hready
      | mutation hlive => exact ⟨_, hlive, rfl⟩
  have htick₁ : s₁.tick = s₀.tick + 1 := by rw [hs₁eq]; rfl
  have hold₁ : Old realm accountId s₀.tick row.securityVersion s₁ := by
    refine hs₁.old (by omega) ?_
    rw [hs₁eq]
    exact hrow
  -- up to the change, and up to the revocation
  have hc := hs₁.run hrun₁
  have hc₁ := hc.step hchange.step
  have hr := hc₁.run hrun₂
  have hr₁ := hr.step hrevoke.step
  have hg : Grown s₁ r := (grown_of_run hrun₁).trans
    ((grown_of_step hchange.step).trans (grown_of_run hrun₂))
  have hseen : Seen (c.users realm accountId) row.securityVersion := by
    refine Cell.Seen.mono (c := s₁.users realm accountId) ?_ ((grown_of_run hrun₁).users _ _)
    rw [hs₁eq]
    exact Cell.seen_of_value? (Cell.value?_eq_some.mpr hrow)
  have hpast : Past (r₁.users realm accountId) row.securityVersion :=
    (hchange.past hseen).mono
      (((grown_of_run hrun₂).trans (grown_of_step hrevoke.step)).users _ _)
  have hr₁eq : r₁ = ((revokeAccount r realm accountId).suspend s₀.tick
      (.mutation kind realm accountId .revoked)).tock := hrevoke.eq.1
  have htick : r₁.tick = r.tick + 1 := by rw [hr₁eq]; rfl
  -- the rest
  have hf₁ := hr₁.run hrun₃
  have hf := hf₁.step hreturn.step
  have hgf : Grown r₁ f := (grown_of_run hrun₃).trans (grown_of_step hreturn.step)
  have hlt : f₁.tick < f.tick := by
    obtain ⟨s', rfl, -, hmove⟩ := step_move hreturn.step
    rw [hmove.tick]
    exact Nat.lt_succ_self _
  have hgs := hgf.trans (grown_of_run hrun)
  have hgr : Grown r s := (grown_of_step hrevoke.step).trans hgs
  have hf₁tick := (grown_of_run hrun₃).tick
  have hkeep : ∀ {P : State → Prop}, (∀ {s s₁ now a call o}, P s → Sound s →
      Move s now a s₁ call o → P s₁.tock) → P r₁ → P s := by
    intro P hP h
    have h1 := keeps_of_run hP hrun₃ hr₁ h
    have h2 := keeps_of_run hP (.single (G := Transition.Always) trivial hreturn.step) hf₁ h1
    exact keeps_of_run hP hrun hf h2
  have hold_r₁ : Old realm accountId s₀.tick row.securityVersion r₁ := by
    have h1 := keeps_of_run Old.move hrun₁ hs₁ hold₁
    have h2 := keeps_of_run Old.move (.single (G := Transition.Always) trivial hchange.step) hc h1
    have h3 := keeps_of_run Old.move hrun₂ hc₁ h2
    exact keeps_of_run Old.move (.single (G := Transition.Always) trivial hrevoke.step) hr h3
  refine ⟨hf.run hrun, (grown_of_step hstart).trans hg, ?_, ?_, hgr, ?_, ?_, ?_⟩
  · intro key ref hstore
    rcases (hg.trans hgr).store hstore with hstore | hle
    · rw [hs₁eq] at hstore
      exact .inl hstore
    · exact .inr (by omega)
  · have := hg.tick
    omega
  · intro key ref x hstore hx hle'
    rcases hgs.store hstore with hstore | hle
    · rw [hr₁eq] at hstore
      change (r.store.filter fun key ref => !doomed r realm accountId key ref).get? key =
        some ref at hstore
      rw [OrderedMap.get?_filter] at hstore
      obtain ⟨hstore, hkept⟩ := Option.filter_eq_some_iff.mp hstore
      obtain ⟨x₁, hx₁⟩ := hr.wf.store hstore
      have := hr.wf.heap_lt hx₁
      rcases hgr.heap hx with ⟨x₀, hx₀, hsame⟩ | hle
      · exact ⟨x₀, hx₀, hsame, by simpa using hkept⟩
      · omega
    · omega
  · refine ⟨row.securityVersion, hkeep Old.move hold_r₁, hkeep Late.move ?_⟩
    rw [← htick]
    exact hr₁.late hpast
  · intro ref x hx hdoomed
    refine hkeep (fun h _ hmove => h.move hmove) ?_
    rw [hr₁eq]
    exact gone_of_doomed hr (by simp) hx hdoomed

/-! ## The law -/

section Law

variable {kind : Kind} {realm accountId : String} {s₀ r f s s' : State} {e : Instant × Action}
  {call : Nat}

/-- An object that a query shows is in its bucket, or the query had it before. -/
theorem move_found {s₁ : State} {now : Instant} {a : Action} {key : Key} {ref : Nat}
    {payload : Payload} (h : Move s now a s₁ call (.found key ref payload)) (hs : Sound s) :
    ∃ x, s.heap ref = some x ∧ x.payload = payload ∧ x.key = key ∧
      ((x.securityVersion = none ∧ call = s.tick ∧ s.store.get? key = some ref) ∨
        s.calls call = some (.find key ref x.securityVersion)) := by
  cases h with
  | ended ho => cases ho
  | redeemed _ ho => cases ho
  | foundFree hselect hfree =>
    obtain ⟨hstore, hheap⟩ := record?_eq_some.mp (select_eq_some hselect).1
    exact ⟨_, hheap, rfl, hs.stored hstore hheap, .inl ⟨hfree, rfl, hstore⟩⟩
  | found hcall hr hversion =>
    obtain ⟨x, hx, hkey⟩ := hs.find hcall
    cases hr.symm.trans hx
    exact ⟨_, hr, rfl, hkey, .inr (by rw [hcall, hversion])⟩

/-- **No revoked artifact is found.** What a query that starts after the mutation returns
was saved by a call that is younger than the mutation, if it is bound to the account
itself; and if it is bound to a Grant that the mutation has revoked, it was saved after
the revocation. -/
theorem After.found (h : After realm accountId s₀ r f s) {key : Key} {ref : Nat}
    {payload : Payload} (hstep : step s e = some (s', call, .found key ref payload))
    (hcall : f.tick ≤ call) (hrealm : key.realm = realm) :
    ∃ x, s.heap ref = some x ∧ x.payload = payload ∧
      (payload.accountId = some accountId → s₀.tick < x.called) ∧
      ∀ g, payload.grantId = some g → accountGrant r realm accountId g = true → r.tick ≤ ref := by
  obtain ⟨now, a⟩ := e
  obtain ⟨s₁, rfl, -, hmove⟩ := step_move hstep
  obtain ⟨x, hx, rfl, hkey, hhow⟩ := move_found hmove h.sound
  obtain ⟨V, hold, hlate⟩ := h.versions
  have horder := h.order
  refine ⟨x, hx, rfl, fun hacc => ?_, fun g hg hgrant => ?_⟩
  · by_contra hle
    obtain ⟨v, hv, hvV⟩ := hold.record hx (by rw [hkey, hrealm]) hacc (Nat.le_of_not_lt hle)
    rcases hhow with ⟨hfree, -⟩ | hsusp
    · rw [hfree] at hv
      cases hv
    · rw [hv] at hsusp
      have := hlate.find (by omega) hsusp hrealm hx hacc
      omega
  · by_contra hlt
    rcases h.revoked.heap hx with ⟨x₀, hx₀, hsame⟩ | hle
    · have hdoomed : doomed r realm accountId x₀.key ref = true := by
        simp [doomed, hx₀, ← hsame.key, hkey, hrealm, ← hsame.grantId, hg, hgrant]
      have hgone := h.gone hx₀ hdoomed
      rcases hhow with ⟨-, -, hstore⟩ | hsusp
      · exact hgone.store _ hstore
      · exact hgone.find (by omega) hsusp
    · exact hlt hle

/-- A Grant that is in its bucket after the mutation, under the identifier of a Grant of
the account, was saved after the mutation started. -/
theorem After.grant (h : After realm accountId s₀ r f s) {g : String}
    (hgrant : accountGrant s₀ realm accountId g = true) (hs₀ : Sound s₀) {ref : Nat}
    (hstore : s.store.get? ⟨realm, "Grant", g⟩ = some ref) : s₀.tick < ref := by
  rcases h.started hstore with hstore₀ | hlt
  · -- the old object is still in the bucket, so the revocation has spared it
    obtain ⟨q₀, hq₀⟩ := hs₀.wf.store hstore₀
    have hacc₀ : q₀.payload.accountId = some accountId := by
      simpa [accountGrant, State.record?, hstore₀, hq₀] using hgrant
    have hlt := hs₀.wf.heap_lt hq₀
    have horder := h.order.1
    obtain ⟨x, hx⟩ := h.sound.wf.store hstore
    obtain ⟨q, hq, -, hspared⟩ := h.survived hstore hx (by omega)
    rcases h.before.heap hq with ⟨q', hq', hsame⟩ | hle
    · cases hq₀.symm.trans hq'
      simp [doomed, hq, hsame.accountId, hacc₀] at hspared
    · omega
  · exact hlt

/-- **No save under a revoked Grant.** If an `upsert` succeeds after the mutation with the
identifier of a Grant that the account had when the mutation started, that Grant has been
saved again since; and if it is a Grant of the account, by a call that is younger than the
mutation. -/
theorem After.saved (h : After realm accountId s₀ r f s) (hs₀ : Sound s₀)
    {key : Key} (hstep : step s e = some (s', call, .saved key)) (hrealm : key.realm = realm)
    {x : Record} (hx : s'.heap s.tick = some x) {g : String} (hgrantId : x.payload.grantId = some g)
    (hgrant : accountGrant s₀ realm accountId g = true) :
    ∃ ref q, s.store.get? ⟨realm, "Grant", g⟩ = some ref ∧ s.heap ref = some q ∧
      s₀.tick < ref ∧ (q.payload.accountId = some accountId → s₀.tick < q.called) := by
  obtain ⟨now, a⟩ := e
  obtain ⟨s₁, rfl, -, hmove⟩ := step_move hstep
  obtain ⟨V, hold, hlate⟩ := h.versions
  cases hmove with
  | ended ho => cases ho
  | redeemed _ ho => cases ho
  | saved hdecided hown hparent =>
    rename_i expiresIn next parent version
    obtain rfl : x = ⟨next, version, expiresIn.map (now.ms + ·), key, call⟩ :=
      Option.some.inj (hx.symm.trans (Function.update_self _ _ _))
    obtain ⟨hfst, hversion⟩ := hparent g hgrantId
    rw [hrealm] at hfst hversion
    have hlive : ∀ {ref}, parent = some ref → ∃ q, s.store.get? ⟨realm, "Grant", g⟩ = some ref ∧
        s.heap ref = some q ∧ q.securityVersion = version := by
      rintro ref rfl
      obtain ⟨⟨ref', q⟩, hlive, rfl⟩ := Option.map_eq_some_iff.mp hfst
      obtain ⟨hstore, hheap⟩ := record?_eq_some.mp (live?_eq_some.mp hlive).1
      rw [hlive] at hversion
      exact ⟨q, hstore, hheap, hversion⟩
    cases hdecided with
    | unowned hready hacc =>
      rcases hready.grant h.sound with ⟨-, hnone, -⟩ | ⟨ref, p, rfl, -, hp, -, -, hpacc⟩
      · rw [hgrantId] at hnone
        cases hnone
      · obtain ⟨q, hstore, hheap, -⟩ := hlive rfl
        cases hp.symm.trans hheap
        refine ⟨ref, p, hstore, hp, h.grant hgrant hs₀ hstore, fun hA => ?_⟩
        rw [hpacc, hacc] at hA
        cases hA
    | owned hcall =>
      cases parent with
      | none =>
        have hnone := (h.sound.free hcall).1
        rw [hgrantId] at hnone
        cases hnone
      | some ref =>
        obtain ⟨q, hstore, hheap, hver⟩ := hlive rfl
        refine ⟨ref, q, hstore, hheap, h.grant hgrant hs₀ hstore, fun hA => ?_⟩
        by_contra hle
        obtain ⟨-, p, hp, -, -, hpacc⟩ := h.sound.own hcall
        cases hp.symm.trans hheap
        have hkey := h.sound.stored hstore hp
        obtain ⟨v, hv, hvV⟩ := hold.record hp (by rw [hkey]) hA (Nat.le_of_not_lt hle)
        rw [← hver, hv] at hcall
        by_cases hnew : r.tick < ref
        · -- the Grant was saved after the revocation, so its version is new
          have := hlate.own hnew hcall hrealm (by rw [← hpacc, hA])
          omega
        · obtain ⟨q₀, hq₀, hsame, hspared⟩ := h.survived hstore hp (Nat.le_of_not_lt hnew)
          simp [doomed, hq₀, ← hsame.accountId, hA] at hspared

/-! ## What a mutation leaves alone -/

/-- What a query selects and reads before its `await`. -/
def look (s : State) (now : Instant) (realm model : String) (c : Column) :
    Option (Key × Nat × Record × Option Nat) :=
  (select s now realm model c).map fun x =>
    (x.1, x.2.1, x.2.2, x.2.2.payload.accountId.bind (s.securityVersionFor realm))

/-- A step of the mutation in state `s`. -/
inductive MutationStep (realm accountId : String) (s : State) (e : Instant × Action) : Prop
  | start {kind : Kind} (he : e.2 = .mutation kind realm accountId)
  | resume {kind : Kind} {stage : Stage} {n : Nat}
      (hcall : s.calls n = some (.mutation kind realm accountId stage)) (he : e.2 = .resume n)

/-- What a step of the mutation can change: the user, and which of the account's objects
are in the buckets. -/
structure Frame (realm accountId : String) (s s' : State) : Prop where
  heap : s'.heap = s.heap
  users : ∀ r a, ¬ (r = realm ∧ a = accountId) → s'.users r a = s.users r a
  store : s'.store = s.store ∨
    s'.store = s.store.filter fun key ref => !doomed s realm accountId key ref

theorem MutationStep.frame (h : MutationStep realm accountId s e) {x : Nat × Outcome}
    (hstep : step s e = some (s', x)) : Frame realm accountId s s' := by
  have huser : ∀ slot r a, ¬ (r = realm ∧ a = accountId) →
      (s.withUser realm accountId slot).users r a = s.users r a := by
    intro slot r a hne
    simp [State.withUser, hne]
  obtain ⟨now, a⟩ := e
  cases h with
  | start he =>
    simp only [step, perform, show a = _ from he, mutationStart, Option.map_some,
      Option.some.injEq, Prod.mk.injEq] at hstep
    obtain ⟨rfl, -⟩ := hstep
    split
    · exact ⟨rfl, fun _ _ _ => rfl, .inl rfl⟩
    · exact ⟨rfl, fun _ _ _ => rfl, .inl rfl⟩
  | resume hcall he =>
    rename_i kind stage n
    obtain ⟨rfl, -⟩ := step_resume_mutation hcall he hstep
    cases stage with
    | begun =>
      cases kind with
      | mutate => exact ⟨rfl, huser _, .inl rfl⟩
      | delete =>
        simp only [mutationResume]
        split
        · exact ⟨rfl, fun _ _ _ => rfl, .inl rfl⟩
        · exact ⟨rfl, huser _, .inl rfl⟩
    | changed => exact ⟨rfl, fun _ _ _ => rfl, .inr rfl⟩
    | revoked => exact ⟨rfl, fun _ _ _ => rfl, .inl rfl⟩

theorem Frame.version (h : Frame realm accountId s s') {r a : String}
    (hne : ¬ (r = realm ∧ a = accountId)) :
    s'.securityVersionFor r a = s.securityVersionFor r a := by
  rw [State.securityVersionFor, h.users r a hne]
  rfl

/-- **What is not the account's stays as it was.** An object that the mutation does not
revoke is in its bucket after a step if and only if it was before; a query that selects an
object of another account, not bound to a Grant of this one, selects the same object and
reads the same version after the step; and queries in other realms are unchanged. -/
theorem Frame.queries (h : Frame realm accountId s s') :
    (∀ key ref, doomed s realm accountId key ref = false →
      (s'.store.get? key = some ref ↔ s.store.get? key = some ref)) ∧
    (∀ now model c x, look s now realm model c = some x →
      doomed s realm accountId x.1 x.2.1 = false → look s' now realm model c = some x) ∧
    (∀ now other model c, other ≠ realm → look s' now other model c = look s now other model c) := by
  refine ⟨fun key ref hspared => ?_, fun now model c x hlook hspared => ?_,
    fun now other model c hother => ?_⟩
  · rcases h.store with hstore | hstore
    · rw [hstore]
    · rw [hstore, OrderedMap.get?_filter, Option.filter_eq_some_iff]
      simp [hspared]
  · obtain ⟨⟨key, ref, r⟩, hselect, rfl⟩ := Option.map_eq_some_iff.mp hlook
    obtain ⟨hrec, hrealm, -⟩ := select_eq_some hselect
    have hheap := (record?_eq_some.mp hrec).2
    have hselect' : select s' now realm model c = some (key, ref, r) := by
      unfold select at hselect ⊢
      obtain ⟨⟨key', ref'⟩, hfirst, hmap⟩ := Option.bind_eq_some_iff.mp hselect
      obtain ⟨r', hr', heq⟩ := Option.map_eq_some_iff.mp hmap
      cases heq
      rw [h.heap]
      rcases h.store with hstore | hstore
      · rw [hstore, hfirst]
        exact hmap
      · rw [hstore, OrderedMap.findFirst?_filter hfirst (by simpa using hspared)]
        exact hmap
    have hacc : ∀ a, r.payload.accountId = some a → a ≠ accountId := by
      rintro a ha rfl
      simp [doomed, hheap, hrealm, ha] at hspared
    simp only [look, hselect', Option.map_some, Option.some.injEq, Prod.mk.injEq, true_and]
    cases ha : r.payload.accountId with
    | none => rfl
    | some a =>
      exact h.version fun hb => hacc a ha hb.2
  · have hselect' : select s' now other model c = select s now other model c := by
      unfold select
      rw [h.heap]
      rcases h.store with hstore | hstore
      · rw [hstore]
      · rw [hstore, OrderedMap.findFirst?_filter_of_imp]
        rintro ⟨key, ref⟩ - hp
        have hkey : key.realm ≠ realm := by
          rintro rfl
          simp only [Bool.and_eq_true, decide_eq_true_eq] at hp
          exact hother hp.1.1.symm
        simp [doomed, hkey]
    have hversion : s'.securityVersionFor other = s.securityVersionFor other := by
      funext a
      exact h.version fun hb => hother hb.1
    simp only [look, hselect', hversion]

end Law

end AuthMe.Adapters.Memory

import AuthMe.Login.Fresh

/-!
# Passkey logins in a run

What holds in every run of the login routes (`passkey_one_use`):

* a challenge is consumed by one call, which serves the interaction and the purpose that the
  challenge was created for. Identifiers of challenges are random values and never issued
  twice, so a challenge that has been consumed does not come back (`Challenges`);
* the counter of a credential does not go down, and of two updates that are accepted the later
  one carries the larger counter, unless both carry 0: `counter_run` between them, and
  `Credential.counter_of_update` at each of them;
* a passkey login that is finished has made one update, which was accepted, with the counter of a
  verified signature over the challenge that it has consumed. So two finished logins with one
  credential do not carry one counter (`outruns_of_updated`).
-/

namespace AuthMe.Login

open Service Store
open Transition (Run Always)

variable {cfg : Config} {s s' : State} {p p' m : Pool} {tr : Trace}

/-! ## Challenges -/

/-- The challenge has been created in the run, by a route or by a registration. -/
def Created (tr : Trace) (c : Challenge) : Prop :=
  (∃ choice n before after, (.resume n choice, .replied n
      ⟨Op.createChallenge c.toChallengeInput, c.id, before, after⟩) ∈ tr) ∨
    (.change (.createChallenge c.toChallengeInput c.id), .changed) ∈ tr

theorem Created.append {c : Challenge} (h : Created tr c) (tr' : Trace) : Created (tr ++ tr') c := by
  rcases h with ⟨choice, n, before, after, h⟩ | h
  · exact .inl ⟨choice, n, before, after, List.mem_append_left _ h⟩
  · exact .inr (List.mem_append_left _ h)

/-- The challenge is new in the store. -/
structure New (s s' : State) (c : Challenge) : Prop where
  fresh : c.id ∉ s.issued
  issued : c.id ∈ s'.issued

theorem addChallenge_get? {input : ChallengeInput} {id : String} (hfresh : id ∉ s.issued)
    {key : String × String} {c : Challenge}
    (hc : ({ s with issued := id :: s.issued }.addChallenge input id).passkeys.challenges.get? key =
      some c) :
    s.passkeys.challenges.get? key = some c ∨ c = ⟨input, id⟩ ∧ key = (c.realm, c.id) ∧
      New s ({ s with issued := id :: s.issued }.addChallenge input id) c := by
  simp only [State.addChallenge] at hc
  by_cases hkey : key = (input.realm, id)
  · subst hkey
    rw [OrderedMap.get?_set_self] at hc
    cases hc
    exact .inr ⟨rfl, rfl, hfresh, List.mem_cons_self⟩
  · rw [OrderedMap.get?_set_of_ne _ hkey] at hc
    exact .inl hc

/-- What an operation on the passkeys does to the challenges: it takes out the one that it
answers with. -/
theorem passkey_challenges {passkeys passkeys' : Passkeys} {now : Instant} {op : PasskeyOp}
    {res : op.Res} (h : passkeys.answer cfg now op = (res, passkeys')) :
    passkeys'.challenges = passkeys.challenges ∨ ∃ key c, passkeys.challenges.get? key = some c ∧
      passkeys'.challenges = passkeys.challenges.erase key := by
  cases op with
  | findCredential realm id => cases h; exact .inl rfl
  | updateCounter realm id expectedCounter verification =>
    simp only [Passkeys.answer] at h
    split at h <;> cases h <;> exact .inl rfl
  | consumeChallenge q =>
    simp only [Passkeys.answer] at h
    split at h
    · cases h; exact .inl rfl
    · rename_i c hc
      split at h
      · cases h
        exact .inr ⟨_, c, hc, rfl⟩
      · cases h; exact .inl rfl

theorem consumeChallenge_eq_some {passkeys passkeys' : Passkeys} {now : Instant}
    {q : ChallengeQuery} {c : Challenge}
    (h : passkeys.answer cfg now (.consumeChallenge q) = (some c, passkeys')) :
    c.answers q now = true ∧ ∃ key, key.1 = q.realm ∧ passkeys.challenges.get? key = some c ∧
      passkeys'.challenges = passkeys.challenges.erase key := by
  simp only [Passkeys.answer] at h
  split at h
  · cases h
  · rename_i hc
    split at h
    · rename_i hanswers
      cases h
      exact ⟨hanswers, _, rfl, hc, rfl⟩
    · cases h

/-- A challenge in the store after an operation was there before it, or the operation has
created it. -/
theorem answer_challenge {choice : Choice} {op : Op} {res : op.Res}
    (h : answer cfg s choice op = some (res, s')) {key : String × String} {c : Challenge}
    (hc : s'.passkeys.challenges.get? key = some c) :
    s.passkeys.challenges.get? key = some c ∨ key = (c.realm, c.id) ∧ New s s' c ∧
      (⟨op, res, s, s'⟩ : Entry operations State) =
        ⟨Op.createChallenge c.toChallengeInput, c.id, s, s'⟩ := by
  cases answer_cases h with
  | createChallenge hfresh =>
    rcases addChallenge_get? hfresh hc with hold | ⟨rfl, hkey, hnew⟩
    · exact .inl hold
    · exact .inr ⟨hkey, hnew, rfl⟩
  | passkey hanswer =>
    rcases passkey_challenges hanswer with hsame | ⟨erased, -, -, herase⟩
    · exact .inl (by rwa [← hsame])
    · dsimp only at hc
      rw [herase, OrderedMap.get?_erase] at hc
      split at hc
      · cases hc
      · exact .inl hc
  | _ => exact .inl hc

/-- The same for a change from outside. -/
theorem change_challenge {e : Change} (h : change cfg s e = some s') {key : String × String}
    {c : Challenge} (hc : s'.passkeys.challenges.get? key = some c) :
    s.passkeys.challenges.get? key = some c ∨ key = (c.realm, c.id) ∧ New s s' c ∧
      e = .createChallenge c.toChallengeInput c.id := by
  cases e with
  | createChallenge input id =>
    obtain ⟨hfresh, rfl⟩ := change_createChallenge h
    rcases addChallenge_get? hfresh hc with hold | ⟨rfl, hkey, hnew⟩
    · exact .inl hold
    · exact .inr ⟨hkey, hnew, rfl⟩
  | elapse clock =>
    simp only [change] at h
    split at h <;> cases h
    exact .inl hc
  | createUser u =>
    simp only [change] at h
    split at h <;> cases h
    exact .inl hc
  | createCredential d =>
    simp only [change] at h
    split at h <;> cases h
    exact .inl hc
  | deleteUser realm id =>
    cases h
    simp only [Passkeys.deleteUser, OrderedMap.get?_filter] at hc
    exact .inl (Option.filter_eq_some_iff.mp hc).1
  | cleanupExpired =>
    cases h
    simp only [OrderedMap.get?_filter] at hc
    exact .inl (Option.filter_eq_some_iff.mp hc).1
  | _ => cases h; exact .inl hc

theorem step_challenge {e : Event Request Choice Change} {o : Output operations State}
    (h : Service.step (routes cfg) p e = some (p', o)) {key : String × String} {c : Challenge}
    (hc : p'.store.passkeys.challenges.get? key = some c) :
    p.store.passkeys.challenges.get? key = some c ∨
      key = (c.realm, c.id) ∧ New p.store p'.store c ∧ Created [(e, o)] c := by
  cases step_move h with
  | start r => exact .inl hc
  | @reply n choice call op next res s _ _ hanswer =>
    rcases answer_challenge hanswer hc with hold | ⟨hkey, hnew, hentry⟩
    · exact .inl hold
    · exact .inr ⟨hkey, hnew, .inl ⟨choice, n, p.store, s, by rw [hentry]; exact .head _⟩⟩
  | @change e s hchange =>
    rcases change_challenge hchange hc with hold | ⟨hkey, hnew, rfl⟩
    · exact .inl hold
    · exact .inr ⟨hkey, hnew, .inr (.head _)⟩

/-- The call has consumed the challenge. -/
def Consumes (p : Pool) (n : Nat) (q : ChallengeQuery) (c : Challenge) : Prop :=
  ∃ call, p.calls n = some call ∧
    Answered (I := operations) call.log (.passkey (.consumeChallenge q)) (some c)

/-- Where the challenges of a run come from, and that one that is consumed is gone for good. -/
structure Challenges (p : Pool) (tr : Trace) : Prop where
  stored : ∀ {key c}, p.store.passkeys.challenges.get? key = some c →
    key = (c.realm, c.id) ∧ c.id ∈ p.store.issued ∧ Created tr c
  consumed : ∀ {n q c}, Consumes p n q c → c.id ∈ p.store.issued ∧ Created tr c ∧
    p.store.passkeys.challenges.get? (c.realm, c.id) = none ∧
      c.realm = q.realm ∧ ∃ now, c.answers q now = true
  unique : ∀ {n m q q' c c'}, Consumes p n q c → Consumes p m q' c' → c.realm = c'.realm →
    c.id = c'.id → n = m ∧ c = c'

/-- A consumption is an old one, or it is the answer of the step. -/
theorem consumes_step {e : Event Request Choice Change} {o : Output operations State}
    (h : Service.step (routes cfg) p e = some (p', o)) {n : Nat} {q : ChallengeQuery}
    {c : Challenge} (hc : Consumes p' n q c) :
    Consumes p n q c ∨ ∃ choice, e = .resume n choice ∧ p.store.passkeys.answer cfg p.store.clock
      (.consumeChallenge q) = (some c, p'.store.passkeys) := by
  obtain ⟨call, hcall, ha⟩ := hc
  rcases (step_move h).answered hcall ha with ⟨old, hold, ha⟩ | ⟨old, choice, next, he, -, -, hanswer⟩
  · exact .inl ⟨old, hold, ha⟩
  · refine .inr ⟨choice, he, ?_⟩
    change answer cfg p.store choice (.passkey (.consumeChallenge q)) = _ at hanswer
    generalize p'.store = s' at hanswer
    cases answer_cases hanswer with
    | passkey hpasskeys => exact hpasskeys

theorem Challenges.step (hp : Challenges p tr) {e : Event Request Choice Change}
    {o : Output operations State} (h : Service.step (routes cfg) p e = some (p', o)) :
    Challenges p' (tr ++ [(e, o)]) := by
  have hissued := issued_step h
  -- what is gone stays gone
  have hgone : ∀ {c : Challenge}, c.id ∈ p.store.issued →
      p.store.passkeys.challenges.get? (c.realm, c.id) = none →
      p'.store.passkeys.challenges.get? (c.realm, c.id) = none := by
    intro c hid hnone
    cases hget : p'.store.passkeys.challenges.get? (c.realm, c.id) with
    | none => rfl
    | some c' =>
      rcases step_challenge h hget with hold | ⟨hkey, hnew, -⟩
      · rw [hnone] at hold
        cases hold
      · have hsame : c.id = c'.id := congrArg Prod.snd hkey
        exact absurd (hsame ▸ hid) hnew.fresh
  -- the answer of a step is a challenge that was stored
  have hanswer : ∀ {q c}, p.store.passkeys.answer cfg p.store.clock (.consumeChallenge q) =
      (some c, p'.store.passkeys) →
      p.store.passkeys.challenges.get? (c.realm, c.id) = some c ∧ c.realm = q.realm ∧
        c.answers q p.store.clock = true ∧
        p'.store.passkeys.challenges.get? (c.realm, c.id) = none := by
    intro q c heq
    obtain ⟨hanswers, key, hrealm, hget, herase⟩ := consumeChallenge_eq_some heq
    obtain ⟨rfl, -, -⟩ := hp.stored hget
    exact ⟨hget, hrealm, hanswers, by rw [herase, OrderedMap.get?_erase_self]⟩
  constructor
  case stored =>
    intro key c hc
    rcases step_challenge h hc with hold | ⟨hkey, hnew, hcreated⟩
    · obtain ⟨hkey, hid, hcreated⟩ := hp.stored hold
      exact ⟨hkey, hissued _ hid, hcreated.append _⟩
    · refine ⟨hkey, hnew.issued, ?_⟩
      rcases hcreated with ⟨choice, n, before, after, hmem⟩ | hmem
      · exact .inl ⟨choice, n, before, after, List.mem_append_right _ hmem⟩
      · exact .inr (List.mem_append_right _ hmem)
  case consumed =>
    intro n q c hc
    rcases consumes_step h hc with hold | ⟨choice, -, heq⟩
    · obtain ⟨hid, hcreated, hnone, hq⟩ := hp.consumed hold
      exact ⟨hissued _ hid, hcreated.append _, hgone hid hnone, hq⟩
    · obtain ⟨hget, hrealm, hanswers, hnone⟩ := hanswer heq
      obtain ⟨-, hid, hcreated⟩ := hp.stored hget
      exact ⟨hissued _ hid, hcreated.append _, hnone, hrealm, _, hanswers⟩
  case unique =>
    intro n m q q' c c' hc hc' hrealm hid
    rcases consumes_step h hc with hold | ⟨choice, he, heq⟩ <;>
      rcases consumes_step h hc' with hold' | ⟨choice', he', heq'⟩
    · exact hp.unique hold hold' hrealm hid
    · have hnone := (hp.consumed hold).2.2.1
      rw [hrealm, hid, (hanswer heq').1] at hnone
      cases hnone
    · have hnone := (hp.consumed hold').2.2.1
      rw [← hrealm, ← hid, (hanswer heq).1] at hnone
      cases hnone
    · cases he.symm.trans he'
      have hget := (hanswer heq).1
      rw [hrealm, hid, (hanswer heq').1] at hget
      cases hget
      exact ⟨rfl, rfl⟩

theorem challenges_run {clock : Instant} {users : Users}
    {credentials : OrderedMap (String × String) Credential}
    (h : Run (Service.step (routes cfg)) Always (.initial (.initial clock users credentials)) tr p) :
    Challenges p tr := by
  refine h.history (fun _ _ _ _ _ hp _ hstep => hp.step hstep) ⟨?_, ?_, ?_⟩
  · intro key c hc
    cases hc
  · rintro n q c ⟨call, hcall, -⟩
    cases hcall
  · rintro n m q q' c c' ⟨call, hcall, -⟩
    cases hcall

/-! ## Counters -/

/-- The event does not delete the credential that is stored under this identifier. -/
def Keeps (realm id : String) (p : Pool) (e : Event Request Choice Change) : Prop :=
  ∀ c, p.store.passkeys.credentials.get? (realm, id) = some c →
    e ≠ .change (.deleteCredential realm id) ∧ e ≠ .change (.deleteUser c.realm c.userId)

/-- The credential is there, with a counter that is at least this one. -/
def Counts (s : State) (realm id : String) (n : Nat) : Prop :=
  ∃ c, s.passkeys.credentials.get? (realm, id) = some c ∧ n ≤ c.counter.value

/-- An update that is accepted was one of the stored counter, and stores the signed one. -/
theorem updateCounter_eq_true {passkeys passkeys' : Passkeys} {now : Instant} {realm id : String}
    {expectedCounter : Nat} {v : Verification} (h : passkeys.answer cfg now
      (.updateCounter realm id expectedCounter v) = (true, passkeys')) :
    ∃ c c', passkeys.credentials.get? (realm, id) = some c ∧
      c.updateCounter expectedCounter v = some c' ∧
      passkeys' = { passkeys with credentials := passkeys.credentials.set (realm, id) c' } := by
  simp only [Passkeys.answer] at h
  split at h
  · cases h
  · rename_i c' hc'
    cases h
    obtain ⟨c, hc, haccepted⟩ := Option.bind_eq_some_iff.mp hc'
    exact ⟨c, c', hc, haccepted, rfl⟩

theorem passkey_counts {passkeys passkeys' : Passkeys} {now : Instant} {op : PasskeyOp}
    {res : op.Res} (h : passkeys.answer cfg now op = (res, passkeys')) {key : String × String}
    {c : Credential} (hc : passkeys.credentials.get? key = some c) :
    ∃ c', passkeys'.credentials.get? key = some c' ∧ c.counter.value ≤ c'.counter.value := by
  cases op with
  | findCredential realm id => cases h; exact ⟨c, hc, Nat.le_refl _⟩
  | consumeChallenge q =>
    simp only [Passkeys.answer] at h
    split at h
    · cases h; exact ⟨c, hc, Nat.le_refl _⟩
    · split at h <;> cases h <;> exact ⟨c, hc, Nat.le_refl _⟩
  | updateCounter realm id expectedCounter v =>
    cases res with
    | false =>
      simp only [Passkeys.answer] at h
      split at h <;> cases h
      exact ⟨c, hc, Nat.le_refl _⟩
    | true =>
      obtain ⟨old, updated, hold, haccepted, rfl⟩ := updateCounter_eq_true h
      by_cases hkey : key = (realm, id)
      · subst hkey
        cases hc.symm.trans hold
        have hcounter := (Credential.counter_of_update haccepted).2
        exact ⟨updated, OrderedMap.get?_set_self _ _ _, by omega⟩
      · exact ⟨c, by rw [OrderedMap.get?_set_of_ne _ hkey, hc], Nat.le_refl _⟩

theorem answer_counts {choice : Choice} {op : Op} {res : op.Res}
    (h : answer cfg s choice op = some (res, s')) {realm id : String} {n : Nat}
    (hc : Counts s realm id n) : Counts s' realm id n := by
  cases answer_cases h with
  | passkey hanswer =>
    obtain ⟨c, hget, hle⟩ := hc
    obtain ⟨c', hget', hle'⟩ := passkey_counts hanswer hget
    exact ⟨c', hget', Nat.le_trans hle hle'⟩
  | _ => exact hc

theorem change_counts {e : Change} (h : change cfg p.store e = some s') {realm id : String}
    {n : Nat} (hkeep : Keeps realm id p (.change e)) (hc : Counts p.store realm id n) :
    Counts s' realm id n := by
  obtain ⟨c, hget, hle⟩ := hc
  obtain ⟨hcredential, huser⟩ := hkeep c hget
  cases e with
  | createChallenge input id =>
    obtain ⟨-, rfl⟩ := change_createChallenge h
    exact ⟨c, hget, hle⟩
  | elapse clock =>
    simp only [change] at h
    split at h <;> cases h
    exact ⟨c, hget, hle⟩
  | createUser u =>
    simp only [change] at h
    split at h <;> cases h
    exact ⟨c, hget, hle⟩
  | createCredential d =>
    simp only [change] at h
    split at h <;> cases h
    rename_i hnone
    have hkey : (realm, id) ≠ (d.realm, d.id) := by
      intro heq
      rw [heq, hnone] at hget
      cases hget
    exact ⟨c, by dsimp only; rw [OrderedMap.get?_set_of_ne _ hkey, hget], hle⟩
  | deleteUser r u =>
    cases h
    refine ⟨c, ?_, hle⟩
    simp only [Passkeys.deleteUser, OrderedMap.get?_filter, hget]
    refine Option.filter_eq_some_iff.mpr ⟨rfl, ?_⟩
    simp only [Bool.not_eq_true', Bool.and_eq_false_iff, decide_eq_false_iff_not]
    by_contra hboth
    obtain ⟨rfl, rfl⟩ := not_or.mp hboth |>.imp not_not.mp not_not.mp
    exact huser rfl
  | deleteCredential r i =>
    cases h
    have hkey : (realm, id) ≠ (r, i) := by
      rintro ⟨⟩
      exact hcredential rfl
    exact ⟨c, by dsimp only; rw [OrderedMap.get?_erase_of_ne _ hkey, hget], hle⟩
  | _ => cases h; exact ⟨c, hget, hle⟩

/-- **The counter of a credential that is not deleted does not go down.** -/
theorem counter_run {realm id : String} {n : Nat}
    (h : Run (Service.step (routes cfg)) (Keeps realm id) p tr p')
    (hc : Counts p.store realm id n) : Counts p'.store realm id n := by
  refine h.invariant (I := fun p => Counts p.store realm id n) ?_ hc
  intro p e p' o hp hkeep hstep
  cases step_move hstep with
  | start r => exact hp
  | reply _ _ hanswer => exact answer_counts hanswer hp
  | change hchange => exact change_counts hchange hkeep hp

/-- The step is an accepted update of the counter of a credential, by the call `n`. -/
def Accepts (cfg : Config) (n : Nat) (realm id : String) (v : Verification) (p : Pool)
    (x : Event Request Choice Change × Output operations State) (p' : Pool) : Prop :=
  Service.step (routes cfg) p x.1 = some (p', x.2) ∧ ∃ choice expectedCounter,
    x = (.resume n choice, .replied n
      ⟨.passkey (.updateCounter realm id expectedCounter v), true, p.store, p'.store⟩)

theorem Accepts.update {n : Nat} {realm id : String} {v : Verification}
    {x : Event Request Choice Change × Output operations State} (h : Accepts cfg n realm id v p x p') :
    ∃ c c' expectedCounter, p.store.passkeys.credentials.get? (realm, id) = some c ∧
      c.updateCounter expectedCounter v = some c' ∧
      p'.store.passkeys.credentials.get? (realm, id) = some c' := by
  obtain ⟨hstep, choice, expectedCounter, rfl⟩ := h
  generalize ho : (Output.replied n _ : Output operations State) = o at hstep
  cases step_move hstep with
  | @reply _ _ call op next res s hcall hprogram hanswer =>
    cases ho
    change answer cfg p.store choice (.passkey (.updateCounter realm id expectedCounter v)) = _
      at hanswer
    cases answer_cases hanswer with
    | passkey hpasskeys =>
      obtain ⟨c, c', hc, haccepted, rfl⟩ := updateCounter_eq_true hpasskeys
      exact ⟨c, c', expectedCounter, hc, haccepted, OrderedMap.get?_set_self _ _ _⟩

/-- **Of two accepted updates the later one carries the larger counter**, unless both carry 0. -/
theorem accepts_lt {n k : Nat} {realm id : String} {v w : Verification} {q q' : Pool}
    {x y : Event Request Choice Change × Output operations State}
    (hv : Accepts cfg n realm id v p x p')
    (h : Run (Service.step (routes cfg)) (Keeps realm id) p' tr q)
    (hw : Accepts cfg k realm id w q y q') (hpos : 0 < v.newCounter ∨ 0 < w.newCounter) :
    v.newCounter < w.newCounter := by
  obtain ⟨_, c, _, _, haccepted, hstored⟩ := hv.update
  obtain ⟨d, d', _, hd, haccepted', -⟩ := hw.update
  -- the first counter is recorded, and what is recorded stays
  obtain ⟨d₁, hd₁, hle⟩ := counter_run h ⟨c, hstored, Nat.le_refl _⟩
  cases hd.symm.trans hd₁
  have hfirst := (Credential.counter_of_update haccepted).1
  obtain ⟨hsecond, hgrows⟩ := Credential.counter_of_update haccepted'
  omega

/-! ## Two updates in a run -/

/-- The call has had an update of the counter accepted. -/
def Updated (p : Pool) (n : Nat) (realm id : String) (v : Verification) : Prop :=
  ∃ call expectedCounter, p.calls n = some call ∧
    Answered call.log (.passkey (.updateCounter realm id expectedCounter v)) true

/-- The update of the call `n` was accepted before that of the call `k`, and the later one carries
the larger counter, unless both carry 0 or the credential was deleted in between. -/
def Outruns (cfg : Config) (tr : Trace) (realm id : String) (n : Nat) (v : Verification) (k : Nat)
    (w : Verification) : Prop :=
  ∃ t₁ x t y t₂ m m' q q', tr = t₁ ++ x :: (t ++ y :: t₂) ∧ Accepts cfg n realm id v m x m' ∧
    Run (Service.step (routes cfg)) Always m' t q ∧ Accepts cfg k realm id w q y q' ∧
    (Run (Service.step (routes cfg)) (Keeps realm id) m' t q →
      0 < v.newCounter ∨ 0 < w.newCounter → v.newCounter < w.newCounter)

/-- The step of a run at which an update was accepted. -/
theorem accepts_of_entry {n : Nat} {call : Call} {realm id : String} {expectedCounter : Nat}
    {v : Verification} {before after : State}
    (h : Run (Service.step (routes cfg)) Always p tr p') (hcall : p'.calls n = some call)
    (hmem : (⟨.passkey (.updateCounter realm id expectedCounter v), true, before, after⟩ :
      Entry operations State) ∈ call.log) :
    (∃ old, p.calls n = some old ∧ (⟨.passkey (.updateCounter realm id expectedCounter v), true,
      before, after⟩ : Entry operations State) ∈ old.log) ∨
    ∃ t₁ x t₂ m m', tr = t₁ ++ x :: t₂ ∧ Run (Service.step (routes cfg)) Always p t₁ m ∧
      Accepts cfg n realm id v m x m' ∧ Run (Service.step (routes cfg)) Always m' t₂ p' := by
  rcases Run.entry h hcall hmem with hold | ⟨t₁, t₂, choice, m, m', htr, hrun, hstep, -, hbefore,
    hafter, hrest⟩
  · exact .inl hold
  · exact .inr ⟨t₁, _, t₂, m, m', htr, hrun, ⟨hstep, choice, expectedCounter, by
      rw [hbefore, hafter]⟩, hrest⟩

/-- Of the updates of two calls one was first. -/
theorem outruns_of_updated {s₀ : State} {n k : Nat} {realm id : String} {v w : Verification}
    (h : Run (Service.step (routes cfg)) Always (.initial s₀) tr p)
    (hn : Updated p n realm id v) (hk : Updated p k realm id w) (hne : n ≠ k) :
    Outruns cfg tr realm id n v k w ∨ Outruns cfg tr realm id k w n v := by
  obtain ⟨call, _, hcall, _, _, hmem⟩ := hn
  obtain ⟨call', _, hcall', _, _, hmem'⟩ := hk
  rcases accepts_of_entry h hcall hmem with ⟨old, hold, -⟩ | ⟨t₁, x, t₂, m, m', rfl, hbefore, hx,
    hafter⟩
  · cases hold
  rcases accepts_of_entry hafter hcall' hmem' with ⟨old, hold, hmem'⟩ | ⟨t, y, t₃, q, q', rfl,
    hbetween, hy, -⟩
  · -- the update of `k` was made before the step, and not at it
    obtain ⟨hstep, choice, _, rfl⟩ := And.intro hx.1 hx.2
    obtain ⟨old', hold', hmem'⟩ : ∃ old', m.calls k = some old' ∧ _ ∈ old'.log := by
      have hone : Run (Service.step (routes cfg)) Always m [_] m' := .cons trivial hstep (.nil m')
      rcases Run.entry hone hold hmem' with hthere | ⟨s₁, _, _, _, _,
        htr, -⟩
      · exact hthere
      · cases s₁ with
        | nil =>
          cases htr
          exact absurd rfl hne
        | cons _ _ =>
          have := congrArg List.length htr
          simp at this
    rcases accepts_of_entry hbefore hold' hmem' with ⟨_, hnone, -⟩ | ⟨s₁, y, s₂, q, q', rfl, -, hy,
      hbetween⟩
    · cases hnone
    · exact .inr ⟨s₁, y, s₂, _, t₂, q, q', m, m', by simp, hy, hbetween, hx,
        fun hkeeps hpos => accepts_lt hy hkeeps hx hpos⟩
  · exact .inl ⟨t₁, x, t, y, t₃, m, m', q, q', rfl, hx, hbetween, hy,
      fun hkeeps hpos => accepts_lt hx hkeeps hy hpos⟩

/-! ## The law of passkey logins -/

def Op.isConsumption : Op → Bool
  | .passkey (.consumeChallenge _) => true
  | _ => false

/-- What holds of the passkey logins of a run. -/
structure PasskeyLaw (cfg : Config) (tr : Trace) (p : Pool) : Prop where
  /-- A challenge is consumed by an attempt of the interaction and purpose that it was created
  for. -/
  bound : ∀ {n call q c}, p.calls n = some call →
    Answered call.log (.passkey (.consumeChallenge q)) (some c) → Created tr c ∧
      c.purpose = .authentication ∧ ∃ uid id assertion,
        call.request = .passkey c.realm uid (some id) assertion ∧ c.interactionUid = some uid
  /-- An attempt consumes one challenge, and no other attempt consumes it. -/
  once : ∀ {n call}, p.calls n = some call →
    call.log.countP (fun x => Op.isConsumption x.op) ≤ 1 ∧ ∀ {q c m q' c'}, Consumes p n q c →
      Consumes p m q' c' → c.realm = c'.realm → c.id = c'.id → n = m ∧ c = c'
  /-- The counter of a credential does not go down. -/
  counter : ∀ {realm id m t m' k}, Run (Service.step (routes cfg)) (Keeps realm id) m t m' →
    Counts m.store realm id k → Counts m'.store realm id k
  /-- A login that is finished has made one update, which was accepted, with the counter that the
  credential has signed over the challenge. -/
  finished : ∀ {n call realm uid challengeId assertion login}, p.calls n = some call →
    call.request = .passkey realm uid challengeId assertion →
    Answered call.log (.interactionFinished realm uid login) () →
    call.log.countP (fun x => Op.isUpdate x.op) = 1 ∧
      ∃ id signed challenge credential user verification, challengeId = some id ∧
        assertion = some signed ∧ login.accountId = user.id ∧
        Verified cfg realm uid id signed call.log challenge credential user verification ∧
        Answered call.log (.passkey (.updateCounter realm credential.id credential.counter.value
          verification)) true
  /-- Of two calls whose updates of a credential were accepted, the later one carries the larger
  counter. -/
  increases : ∀ {n k realm id v w}, Updated p n realm id v → Updated p k realm id w → n ≠ k →
    Outruns cfg tr realm id n v k w ∨ Outruns cfg tr realm id k w n v

theorem passkey_one_use {clock : Instant} {users : Users}
    {credentials : OrderedMap (String × String) Credential}
    (h : Run (Service.step (routes cfg)) Always (.initial (.initial clock users credentials)) tr p) :
    PasskeyLaw cfg tr p := by
  have hchallenges := challenges_run h
  have hspec := routes_spec cfg
  constructor
  case bound =>
    intro n call q c hcall ha
    obtain ⟨-, hcreated, -, hrealm, now, hanswers⟩ := hchallenges.consumed ⟨call, hcall, ha⟩
    obtain ⟨l, -, -, realm, uid, id, assertion, hrequest, rfl⟩ := hspec.answered h hcall ha
    simp only [Challenge.answers, Bool.and_eq_true, decide_eq_true_eq] at hanswers
    exact ⟨hcreated, hanswers.1.1.1, uid, id, assertion, by rw [hrequest, hrealm], hanswers.1.2⟩
  case once =>
    intro n call hcall
    refine ⟨countP_le_one fun l x l' hlog hkind => ?_, hchallenges.unique⟩
    have hperformed := hspec.performed h hcall hlog
    obtain ⟨op, res, before, after⟩ := x
    cases op with
    | passkey op =>
      cases op with
      | consumeChallenge q => simp [hperformed.1, Free]
      | _ => cases hkind
    | _ => cases hkind
  case counter => exact counter_run
  case increases => exact outruns_of_updated h
  case finished =>
    intro n call realm uid challengeId assertion login hcall hrequest ha
    have hone : call.log.countP (fun x => Op.isUpdate x.op) ≤ 1 := by
      refine countP_le_one fun l x l' hlog hkind => ?_
      have hperformed := hspec.performed h hcall hlog
      obtain ⟨op, res, before, after⟩ := x
      cases op with
      | passkey op =>
        cases op with
        | updateCounter => exact hperformed.1
        | _ => cases hkind
      | _ => cases hkind
    obtain ⟨l, hl, -, hfinishes⟩ := hspec.answered h hcall ha
    cases hfinishes with
    | login hlogin => rw [hrequest] at hlogin; cases hlogin
    | complete hcomplete => rw [hrequest] at hcomplete; cases hcomplete
    | @passkey id signed user hpasskey hok =>
      obtain ⟨challenge, credential, verification, hverified, hupdate⟩ := hok.verified
      obtain ⟨before, after, hmem⟩ := hupdate.mono hl
      rw [hrequest] at hpasskey
      cases hpasskey
      have hsome : 0 < call.log.countP (fun x => Op.isUpdate x.op) :=
        List.countP_pos_iff.mpr ⟨_, hmem, rfl⟩
      exact ⟨by omega, id, signed, challenge, credential, user, verification, rfl, rfl, rfl,
        hverified.mono hl, before, after, hmem⟩

def someAssertion : Assertion := ⟨"key", "key", "challenge", "data", "signature", "handle"⟩

/-- Ada logs in with a passkey. -/
theorem passkey_one_use_login : ∃ tr p call, p.calls 1 = some call ∧
    call.program = .done (.finished ⟨"ada", "urn:authme:loa:2", ["passkey"]⟩) ∧
      PasskeyLaw someConfig tr p := by
  have h : Transition.exec (Service.step (routes someConfig)) Always (.initial someState)
      [.start (.passkeyOptions "master" "uid" "challenge"), .resume 0 .none,
        .resume 0 (.text "id"), .start (.passkey "master" "uid" (some "id") (some someAssertion)),
        .resume 1 .none, .resume 1 .none, .resume 1 .none, .resume 1 .none, .resume 1 .none,
        .resume 1 .none, .resume 1 .none] = some (_, _) := rfl
  exact ⟨_, _, _, rfl, rfl, passkey_one_use (.of_exec h)⟩

end AuthMe.Login

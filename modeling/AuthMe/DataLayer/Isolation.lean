import AuthMe.DataLayer.Rollback

/-!
# What a failing mutation undoes

The law of `mutateAccountSecurity` of the development data layer (`rollback_law`): while no other
request writes to the account during a mutation that fails, the rollback restores the row and the
passkeys that were there at the start of the mutation, the security version never goes down, what
another request has consumed stays consumed, a deleted account stays away, and a stale artifact
stays stale. `rollback_counterexample` is a run in which another request writes during the
mutation.
-/

namespace AuthMe.DataLayer

open Service Store
open Transition (Run Always exec)

variable {cfg : Config} {s s' : State} {p p' : Pool} {e : Event}
  {o : Service.Output operations State} {log start : Log} {key : UserKey} {u : User}

/-! ## Passkeys -/

/-- Since the second operation nobody else has written to the passkeys. -/
def Steady (key : UserKey) (s : State) (log : Log) : Prop :=
  Undisturbed (.passkeys key) s log.dropLast

theorem steady_cons {x : Entry operations State} {rest : Log} (hne : rest ≠ []) :
    Steady key s (x :: rest) ↔
      s.writes.count (.passkeys key) = x.after.writes.count (.passkeys key) ∧
        Steady key x.before rest := by
  rw [Steady, List.dropLast_cons_of_ne_nil hne]
  exact Iff.rfl

/-- The account is there, and these are its passkeys. -/
structure Shows (key : UserKey) (s : State) (passkeys : String → Credential → Prop) : Prop where
  row : s.users.get? key ≠ none
  passkeys : ∀ id c, s.passkey key id = some c ↔ passkeys id c

theorem Shows.mono {parts : List Part} {f : String → Credential → Prop} (h : Shows key s f)
    (hw : Written s s' parts) (hcount : s'.writes.count (.passkeys key) =
      s.writes.count (.passkeys key)) : Shows key s' f := by
  have hpart := hw.not_mem_of_count hcount
  refine ⟨hw.stays key hpart h.row, fun id c => ?_⟩
  rw [hw.passkeys key hpart id]
  exact h.passkeys id c

/-- What the last operation has left is there, if nobody else has written to it. -/
theorem Shows.of_head {x : Entry operations State} {rest : Log} {f : String → Credential → Prop}
    (h : Shows key x.after f) (hl : Linked s (x :: rest)) (hsteady : Steady key s (x :: rest))
    (hne : rest ≠ []) : Shows key s f := by
  obtain ⟨-, -, ⟨parts, hw⟩, -⟩ := hl
  exact h.mono hw ((steady_cons hne).mp hsteady).1

theorem mem_credentialsOf (hs : Wf s) {c : Credential} :
    c ∈ s.credentialsOf key ↔ s.passkey key c.id = some c ∧ c.realm = key.1 := by
  rw [State.passkey_eq_some]
  simp only [State.credentialsOf, List.mem_filter, List.mem_map, Bool.and_eq_true,
    decide_eq_true_eq]
  constructor
  · rintro ⟨⟨⟨k, c'⟩, hmem, rfl⟩, hrealm, huser⟩
    have hget := OrderedMap.mem_entries_iff.mp hmem
    obtain ⟨h1, h2⟩ := hs.credentials k.1 k.2 c' hget
    refine ⟨⟨?_, huser⟩, hrealm⟩
    rw [← hrealm, h1, h2]
    exact hget
  · rintro ⟨⟨hget, huser⟩, hrealm⟩
    exact ⟨⟨_, OrderedMap.mem_entries_iff.mpr hget, rfl⟩, hrealm, huser⟩

theorem passkey_keys (hs : Wf s) {id : String} {c : Credential} (h : s.passkey key id = some c) :
    c.realm = key.1 ∧ c.id = id ∧ c.userId = key.2 := by
  obtain ⟨hget, huser⟩ := State.passkey_eq_some.mp h
  obtain ⟨hrealm, hid⟩ := hs.credentials _ _ _ hget
  exact ⟨hrealm, hid, huser⟩

theorem passkey_eraseCredential (id id' : String) (c : Credential) :
    (s.eraseCredential key id).2.passkey key id' = some c ↔
      s.passkey key id' = some c ∧ id' ≠ id := by
  unfold State.eraseCredential
  split
  · rename_i hnone
    refine ⟨fun h => ⟨h, ?_⟩, fun h => h.1⟩
    rintro rfl
    rw [State.passkey_eq_some, hnone] at h
    cases h.1
  · rename_i c₀ hc₀
    split
    · rw [State.passkey_eq_some, State.passkey_eq_some]
      simp only [State.wrote, OrderedMap.get?_erase, Prod.mk.injEq, true_and]
      by_cases hid : id' = id
      · simp [hid]
      · simp [hid]
    · rename_i huser
      refine ⟨fun h => ⟨h, ?_⟩, fun h => h.1⟩
      rintro rfl
      obtain ⟨hget, hfound⟩ := State.passkey_eq_some.mp h
      cases hc₀.symm.trans hget
      exact huser hfound

theorem row_eraseCredential (id : String) :
    (s.eraseCredential key id).2.users = s.users := by
  unfold State.eraseCredential
  split
  · rfl
  · split
    · rfl
    · rfl

theorem Deletes.ne_nil {cs : List Credential} (h : Deletes key start cs log) (hne : start ≠ []) :
    log ≠ [] := by
  cases h with
  | nil => exact hne
  | snoc => simp

theorem Creates.ne_nil {cs : List Credential} (h : Creates start cs log) (hne : start ≠ []) :
    log ≠ [] := by
  cases h with
  | nil => exact hne
  | snoc => simp

theorem Deletes.suffix {cs : List Credential} (h : Deletes key start cs log) : start <:+ log := by
  induction h with
  | nil => exact List.suffix_rfl
  | snoc _ ih => exact ih.trans (List.suffix_cons _ _)

theorem Creates.suffix {cs : List Credential} (h : Creates start cs log) : start <:+ log := by
  induction h with
  | nil => exact List.suffix_rfl
  | snoc _ _ ih => exact ih.trans (List.suffix_cons _ _)

/-- After the deletions the passkeys are those that were not deleted. -/
theorem Deletes.shows {cs : List Credential} {f : String → Credential → Prop}
    (h : Deletes key start cs log) (hne : start ≠ [])
    (hstart : ∀ s, Linked s start → Steady key s start → Shows key s f) :
    ∀ {s}, Linked s log → (∀ x ∈ log, Answers (layer cfg) x) → Steady key s log →
      Shows key s (fun id c => f id c ∧ id ∉ cs.map (·.id)) := by
  induction h with
  | nil =>
    intro s hl _ hsteady
    simpa using hstart s hl hsteady
  | @snoc cs log c res before after hdeletes ih =>
    intro s hl ha hsteady
    have hlog := hdeletes.ne_nil hne
    have hbefore := ih hl.2.2.2 (fun x hx => ha x (List.mem_cons_of_mem _ hx))
      ((steady_cons hlog).mp hsteady).2
    apply Shows.of_head _ hl hsteady hlog
    obtain ⟨choice, hanswer⟩ := ha _ List.mem_cons_self
    have hpair : some (before.eraseCredential key c.id) = some (res, after) := hanswer
    have hafter : after = (before.eraseCredential key c.id).2 := by
      rw [Option.some.inj hpair]
    subst hafter
    refine ⟨?_, fun id c' => ?_⟩
    · rw [row_eraseCredential]
      exact hbefore.row
    · rw [passkey_eraseCredential, hbefore.passkeys]
      simp only [List.map_append, List.map_cons, List.map_nil, List.mem_append,
        List.mem_singleton, not_or]
      exact and_assoc

/-- After the creations the passkeys are those that were created. -/
theorem Creates.shows {cs : List Credential} (h : Creates start cs log) (hne : start ≠ [])
    (hstart : ∀ s, Linked s start → Steady key s start → Shows key s fun _ _ => False)
    (howner : ∀ c ∈ cs, c.realm = key.1 ∧ c.userId = key.2) :
    ∀ {s}, Linked s log → (∀ x ∈ log, Answers (layer cfg) x) → Steady key s log →
      Shows key s fun id c => c ∈ cs ∧ c.id = id := by
  induction h with
  | nil =>
    intro s hl _ hsteady
    simpa using hstart s hl hsteady
  | @snoc cs log c res before after hcreates hres ih =>
    intro s hl ha hsteady
    have hlog := hcreates.ne_nil hne
    have hbefore := ih (fun c hc => howner c (List.mem_append_left _ hc)) hl.2.2.2
      (fun x hx => ha x (List.mem_cons_of_mem _ hx)) ((steady_cons hlog).mp hsteady).2
    apply Shows.of_head _ hl hsteady hlog
    obtain ⟨hrealm, huser⟩ := howner c (List.mem_append_right _ List.mem_cons_self)
    obtain ⟨choice, hanswer⟩ := ha _ List.mem_cons_self
    have hpair : some (before.createWebAuthnCredential c) = some (res, after) := hanswer
    unfold State.createWebAuthnCredential at hpair
    split at hpair
    · rename_i hnone
      rw [hrealm, huser] at hnone
      exact absurd hnone hbefore.row
    · cases hpair
      exact absurd rfl hres
    · rename_i hfree
      cases hpair
      refine ⟨hbefore.row, fun id c' => ?_⟩
      have hplace : before.passkey key c.id = none := by
        rw [State.passkey, ← hrealm, hfree]
        rfl
      rw [State.passkey_eq_some]
      change (before.credentials.set (c.realm, c.id) c).get? (key.1, id) = some c' ∧ _ ↔ _
      rw [OrderedMap.get?_set, hrealm]
      by_cases hid : id = c.id
      · subst hid
        have hother : ¬ (c' ∈ cs ∧ c'.id = c.id) := by
          rw [← hbefore.passkeys, hplace]
          simp
        simp only [if_true, Option.some.injEq, List.mem_append, List.mem_singleton]
        constructor
        · rintro ⟨rfl, -⟩
          exact ⟨.inr rfl, rfl⟩
        · rintro ⟨hmem | rfl, hsame⟩
          · exact absurd ⟨hmem, hsame⟩ hother
          · exact ⟨rfl, huser⟩
      · have hpair : (key.1, id) ≠ (key.1, c.id) := fun heq => hid (Prod.mk.inj heq).2
        rw [if_neg hpair, ← State.passkey_eq_some, hbefore.passkeys, List.mem_append,
          List.mem_singleton]
        constructor
        · intro hold
          exact ⟨.inl hold.1, hold.2⟩
        · rintro ⟨hmem | rfl, hsame⟩
          · exact ⟨hmem, hsame⟩
          · exact absurd hsame.symm hid

theorem answer_list {credentials : List Credential} {before after : State}
    (h : Answers (layer cfg) (⟨.store (.listWebAuthnCredentials key), credentials, before, after⟩ :
      Entry operations State)) :
    credentials.Perm (before.credentialsOf key) ∧ after = before := by
  obtain ⟨choice, h⟩ := h
  simp only [layer, State.answer, State.answerStore] at h
  split at h
  · split at h
    · rename_i hperm
      cases h
      exact ⟨hperm, rfl⟩
    · cases h
  · cases h

/-- After all passkeys of the account were listed and deleted, there are none. -/
theorem Deletes.shows_none {current : List Credential} {before after : State}
    (h : Deletes key (⟨.store (.listWebAuthnCredentials key), current, before, after⟩ :: start)
      current log) (hne : start ≠ []) (ha : ∀ x ∈ log, Answers (layer cfg) x)
    (hstart : ∀ s, Linked s start → Steady key s start → s.users.get? key ≠ none)
    (hl : Linked s log) (hsteady : Steady key s log) : Shows key s fun _ _ => False := by
  have hmem := h.suffix.subset List.mem_cons_self
  obtain ⟨hperm, rfl⟩ := answer_list (ha _ hmem)
  have hwf : Wf after := (hl.mem hmem).1
  have hshows := h.shows (f := fun id c => after.passkey key id = some c) (by simp) (by
    intro s' hl' hsteady'
    have hrow := hstart after hl'.2.2.2 ((steady_cons hne).mp hsteady').2
    exact Shows.of_head ⟨hrow, fun _ _ => Iff.rfl⟩ hl' hsteady' hne) hl ha hsteady
  refine ⟨hshows.row, fun id c => (hshows.passkeys id c).trans ⟨fun ⟨hget, hnot⟩ => ?_, False.elim⟩⟩
  -- every passkey of the account was in the list
  obtain ⟨hrealm, hid, -⟩ := passkey_keys hwf hget
  subst hid
  have hlisted : c ∈ current := hperm.mem_iff.mpr ((mem_credentialsOf hwf).mpr ⟨hget, hrealm⟩)
  exact hnot (List.mem_map_of_mem hlisted)

/-- The passkeys that a mutation has written back are those that its second operation has
listed. -/
theorem WrittenBack.passkeys (h : WrittenBack key log) (hl : Linked s log)
    (ha : ∀ x ∈ log, Answers (layer cfg) x) (hsteady : Steady key s log) :
    ∃ listed, log.dropLast.getLast? = some listed ∧
      listed.op = .store (.listWebAuthnCredentials key) ∧
      ∀ id, s.passkey key id = listed.before.passkey key id := by
  obtain ⟨user, snapshot, body, before, after, before', after', before'', after'', -,
    ⟨current, deleted, b, a, hdeletes, hcreates⟩⟩ := h
  generalize hbase : body ++ [⟨.store (.listWebAuthnCredentials key), snapshot, before', after'⟩,
    ⟨.store (.findUserById key), some user, before, after⟩] = base at hdeletes
  have hdeleted : deleted <:+ log := hcreates.suffix
  have hsuffix : base <:+ log :=
    (List.suffix_cons _ _).trans ((List.suffix_cons _ _).trans (hdeletes.suffix.trans hdeleted))
  have hlist : (⟨.store (.listWebAuthnCredentials key), snapshot, before', after'⟩ :
      Entry operations State) ∈ log := hsuffix.subset (by simp [← hbase])
  have hfind : (⟨.store (.findUserById key), some user, before, after⟩ :
      Entry operations State) ∈ log := hsuffix.subset (by simp [← hbase])
  have hrestore := hdeleted.subset (hdeletes.suffix.subset
    (List.mem_cons_of_mem _ List.mem_cons_self))
  have hne : base ≠ [] := by simp [← hbase]
  have hsecond : log.dropLast.getLast? =
      some ⟨.store (.listWebAuthnCredentials key), snapshot, before', after'⟩ := by
    obtain ⟨l, hlog⟩ := hsuffix
    rw [← hlog, ← hbase]
    simp [List.dropLast_append_of_ne_nil]
  -- the row is there after it has been written back
  have hkey : State.keyOf user = key :=
    ((hl.mem hfind).1.users key user (answer_find (ha _ hfind)).1.symm).1
  have hrow : after''.users.get? key ≠ none := by
    obtain ⟨choice, hanswer⟩ := ha _ hrestore
    have hpair : some ((), before''.setUser (State.keyOf user) (normalizeUser cfg user)) =
        some ((), after'') := hanswer
    simp only [Option.some.injEq, Prod.mk.injEq, true_and] at hpair
    rw [← hpair, get?_setUser, hkey]
    simp
  obtain ⟨hperm, -⟩ := answer_list (ha _ hlist)
  have hwf : Wf before' := (hl.mem hlist).1
  have howner : ∀ c ∈ snapshot, before'.passkey key c.id = some c ∧ c.realm = key.1 := fun c hc =>
    (mem_credentialsOf hwf).mp (hperm.mem_iff.mp hc)
  have hnone : ∀ s, Linked s deleted → Steady key s deleted → Shows key s fun _ _ => False := by
    intro s' hl' hsteady'
    refine hdeletes.shows_none (by simp) (fun x hx => ha x (hdeleted.subset hx)) ?_ hl' hsteady'
    intro s'' hl'' hsteady''
    exact (Shows.of_head ⟨hrow, fun _ _ => Iff.rfl⟩ hl'' hsteady'' hne).row
  have hshows := hcreates.shows (hdeletes.ne_nil (by simp)) hnone
    (fun c hc => ⟨(howner c hc).2, (passkey_keys hwf (howner c hc).1).2.2⟩) hl ha hsteady
  refine ⟨_, hsecond, rfl, fun id => Option.ext fun c => (hshows.passkeys id c).trans ?_⟩
  constructor
  · rintro ⟨hc, rfl⟩
    exact (howner c hc).1
  · intro hget
    obtain ⟨hrealm, hid, -⟩ := passkey_keys hwf hget
    subst hid
    exact ⟨hperm.mem_iff.mpr ((mem_credentialsOf hwf).mpr ⟨hget, hrealm⟩), rfl⟩

/-- A mutation that has written back its passkeys, undisturbed at each of its steps. -/
theorem passkeys_run {clock : Instant} {tr : Trace}
    (h : Run (Service.step (layer cfg)) (RollsBackAlone cfg) (.initial (.empty clock)) tr p) {n : Nat}
    {c : Call} {mutate : Program storeMethods Outcome} (hc : p.calls n = some c)
    (hrequest : c.request = .mutateAccountSecurity key mutate) {x : Entry operations State}
    {rest : Log} (hlog : c.log = x :: rest) (hback : WritingBack rest) :
    Undisturbed (.passkeys key) x.before rest.dropLast := by
  suffices hall : ∀ n c mutate, p.calls n = some c → c.request = .mutateAccountSecurity key mutate →
      ∀ x rest, c.log = x :: rest → WritingBack rest →
        Undisturbed (.passkeys key) x.before rest.dropLast from
    hall n c mutate hc hrequest x rest hlog hback
  refine h.invariant (I := fun p => ∀ n c mutate, p.calls n = some c →
    c.request = .mutateAccountSecurity key mutate → ∀ x rest, c.log = x :: rest →
      WritingBack rest → Undisturbed (.passkeys key) x.before rest.dropLast) ?_ ?_
  · intro p e p' o hp hG hstep n c mutate hc hrequest x rest hlog hback
    cases (step_move hstep).became hc with
    | start _ _ hc => simp [hc] at hlog
    | same hold => exact hp n c mutate hold hrequest x rest hlog hback
    | @reply old op next res hold hprogram hanswer hc he =>
      subst hc
      obtain ⟨choice, rfl⟩ := he
      obtain ⟨rfl, rfl⟩ := List.cons.inj hlog
      exact (RollsBackAlone.resume hG hold hrequest hprogram).2 hback
  · intro n c mutate hc
    cases hc

theorem WrittenBack.writingBack (h : WrittenBack key log) {x : Entry operations State} {rest : Log}
    (hlog : log = x :: rest) : WritingBack rest := by
  obtain ⟨user, snapshot, body, before, after, before', after', before'', after'', -,
    ⟨current, deleted, b, a, hdeletes, hcreates⟩⟩ := h
  obtain ⟨l, hl⟩ := hdeletes.suffix.trans hcreates.suffix
  rw [hlog] at hl
  refine ⟨⟨.restoreUser user, (), before'', after''⟩, ?_, rfl⟩
  cases l with
  | nil =>
    obtain ⟨-, rfl⟩ := List.cons.inj hl
    exact List.mem_cons_self
  | cons y l =>
    obtain ⟨-, rfl⟩ := List.cons.inj hl
    simp

/-! ## Versions, factors and deletions -/

theorem Kept.run {K : User → Prop} {k : Option Nat} {tr : Trace} (hp : Inv cfg p)
    (hK : Kept K key k p) (hbump : ∀ u, K u → K u.bumpSecurityVersion)
    (hnormal : ∀ u, K u → K (normalizeUser cfg u))
    (h : Run (Service.step (layer cfg)) (fun q e => RollsBackAlone cfg q e ∧ ¬ Breaks cfg K key q e ∧
      ¬ RollsBack k q e) p tr p') : Kept K key k p' := by
  refine (h.invariant (I := fun q => Inv cfg q ∧ Kept K key k q) ?_ ⟨hp, hK⟩).2
  rintro q e q' o ⟨hq, hKq⟩ ⟨hG, hbreaks, hrolls⟩ hstep
  exact ⟨hq.step hG hstep, hKq.step hq hG hbreaks hrolls hbump hnormal hstep⟩

/-- The version of the row is kept. -/
theorem Inv.kept_version (hp : Inv cfg p) (hu : p.store.users.get? key = some u) :
    Kept (fun u' => u.securityVersion ≤ u'.securityVersion) key none p := by
  refine ⟨(hp.wf.users key u hu).2, fun u' hu' => ?_, fun n c mutate u' _ hc _ hstore hread hquiet =>
    ?_, fun n u' hheld => ?_⟩
  · cases hu.symm.trans hu'
    exact Nat.le_refl _
  · obtain ⟨u'', hu'', hversion⟩ :=
      hread.version (hp.linked n c hc) (hp.answers n c hc) hstore hquiet
    cases hu.symm.trans hu''
    exact Nat.le_of_eq hversion
  · rw [(hp.deleting n key u' hheld).1] at hu
    cases hu

/-- What a call has just written into the row is kept by the others. -/
theorem Inv.kept_written {K : User → Prop} {k : Nat} {choice : Choice} (hp : Inv cfg p)
    (hG : RollsBackAlone cfg p (.resume k choice))
    (h : Service.step (layer cfg) p (.resume k choice) = some (p', o))
    (hu : p'.store.users.get? key = some u) (hchanged : p.store.users.get? key ≠ some u)
    (hK : K u) : Kept K key (some k) p' := by
  have hp' := hp.step hG h
  obtain ⟨parts, hw⟩ := hp.written h
  refine ⟨(hp'.wf.users key u hu).2, fun u' hu' => ?_,
    fun n c mutate u' hne hc _ _ hread hquiet => ?_, fun n u' hheld => ?_⟩
  · cases hu.symm.trans hu'
    exact hK
  · -- a mutation of another call has been disturbed by the write
    cases (step_move h).became hc with
    | start _ _ hc =>
      obtain ⟨_, _, hlast⟩ := hread
      simp [hc] at hlast
    | same hold =>
      have hlog : c.log ≠ [] := by
        obtain ⟨_, _, hlast⟩ := hread
        intro hnil
        simp [hnil] at hlast
      have hpart := (hquiet.back (hp.linked n c hold) hw hlog).2
      exact absurd ((hw.row key hpart).symm.trans hu) hchanged
    | reply _ _ _ _ he =>
      obtain ⟨_, he⟩ := he
      cases he
      exact absurd rfl hne
  · rw [(hp'.deleting n key u' hheld).1] at hu
    cases hu

/-- Nothing can bring a deleted account back. -/
theorem gone_run {clock : Instant} {tr : Trace}
    (h : Run (Service.step (layer cfg)) (RollsBackAlone cfg) (.initial (.empty clock)) tr p) {n : Nat}
    {c : Call} {audited : Bool} (hc : p.calls n = some c)
    (hrequest : c.request = .deleteAccount key audited) (hdone : c.program = .done (.deleted u)) :
    Kept (fun _ => False) key none p := by
  suffices hall : Inv cfg p ∧ ∀ n c audited u, p.calls n = some c →
      c.request = .deleteAccount key audited → c.program = .done (.deleted u) →
        Kept (fun _ => False) key none p from hall.2 n c audited u hc hrequest hdone
  refine h.along (I := fun p _ => Inv cfg p ∧ ∀ n c audited u, p.calls n = some c →
      c.request = .deleteAccount key audited → c.program = .done (.deleted u) →
        Kept (fun _ => False) key none p) ?_ ⟨inv_run (.nil _), fun n c _ _ hc => by cases hc⟩
  rintro p past e p' o - ⟨hp, hgone⟩ hG hstep
  have hp' := hp.step hG hstep
  refine ⟨hp', fun n c audited u hc hrequest hdone => ?_⟩
  have hnoBreak : ¬ Breaks cfg (fun _ => False) key p e := by
    rintro ⟨_, _, _, _, _, _, _, _, _, _, _, _, hfalse, _⟩
    exact hfalse
  have hnoRoll : ¬ RollsBack none p e := by
    rintro ⟨_, _, _, _, _, heq, _⟩
    cases heq
  cases (step_move hstep).became hc with
  | start _ _ hc =>
    rw [hc] at hrequest hdone
    cases hrequest
    cases hdone
  | same hold =>
    exact (hgone n c audited u hold hrequest hdone).step hp hG hnoBreak hnoRoll
      (fun _ h => h) (fun _ h => h) hstep
  | @reply old op next res hold hprogram hanswer hnew =>
    -- the call has come to its end with the step
    have hreturns : Returns c.request c.log (.deleted u) := by
      have hobeys := hp'.obeys n c hc
      rwa [hdone] at hobeys
    rw [hrequest] at hreturns
    obtain ⟨x, log', hlog, hop, hholds⟩ := hreturns
    subst hnew
    obtain ⟨rfl, rfl⟩ := List.cons.inj hlog
    have hheld : Deleting p n key u := ⟨old, audited, hold, hrequest, hholds⟩
    obtain ⟨hrow, honly⟩ := hp.deleting n key u hheld
    have hissued := (hholds.issued (hp.linked n old hold) (hp.answers n old hold)).2
    have hrow' : p'.store.users.get? key = none := by
      obtain ⟨choice, hanswer⟩ := hanswer
      cases hop
      have hpair : some ((), p.store) = some (res, p'.store) := hanswer
      simp only [Option.some.injEq, Prod.mk.injEq] at hpair
      rw [← hpair.2]
      exact hrow
    obtain ⟨parts, hw⟩ := hp.written hstep
    refine ⟨hw.issued key hissued, fun u' hu' => ?_,
      fun n' c' mutate u' _ hc' _ hstore hread hquiet => ?_, fun n' u' hheld' => ?_⟩
    · rw [hrow'] at hu'
      cases hu'
    · obtain ⟨u'', hu'', -⟩ :=
        hread.version (hp'.linked n' c' hc') (hp'.answers n' c' hc') hstore hquiet
      rw [hrow'] at hu''
      cases hu''
    · rcases Inv.deleting_became hstep hheld' with hbefore | ⟨hrow'', -, -⟩
      · have hn : n' = n := honly n' u' hbefore
        subst hn
        obtain ⟨c', _, hc', -, hholds'⟩ := hheld'
        cases hc.symm.trans hc'
        have := hholds'.pending _ List.mem_cons_self
        cases hop
        cases this
      · rw [hrow] at hrow''
        cases hrow''

/-! ## The law -/

/-- The step sets the second factor of the account anew. -/
def ResetsFactor (key : UserKey) (x : Event × Service.Output operations State) : Prop :=
  ∃ n call u before after, x.2 =
    .replied n ⟨.store (.row key (.factor call)), .written u, before, after⟩ ∧
    (Factor.Done.mk call true).isReset = true

/-- With the step the call writes back what it has read. -/
def RolledBack (k : Nat) (x : Event × Service.Output operations State) : Prop :=
  ∃ u before after, x.2 = .replied k ⟨.restoreUser u, (), before, after⟩

/-- A method that does not set the second factor anew keeps what was consumed. -/
theorem apply_consumed {op : RowOp} {u' : User} (h : op.apply cfg s key u = some u')
    (hreset : ∀ call, op = .factor call → (Factor.Done.mk call true).isReset = false) :
    (∀ l, u.lastTotpStep = some l → ∃ l', u'.lastTotpStep = some l' ∧ l ≤ l') ∧
      ∀ digest, u'.recoveryCodeHashes.count digest ≤ u.recoveryCodeHashes.count digest := by
  cases op with
  | factor call =>
    have hno := hreset call rfl
    refine ⟨fun l hl => ?_, fun digest => ?_⟩
    · have hlast := Factor.lastTotpStep_apply h hno
      cases call with
      | consumeTotpStep step =>
        obtain ⟨hnewer, hnew⟩ := hlast
        exact ⟨step, hnew, Int.le_of_lt (hnewer l hl)⟩
      | _ => exact ⟨l, hlast.trans hl, Int.le_refl l⟩
    · have hcount := Factor.count_apply h hno digest
      omega
  | updateUser patch =>
    simp only [RowOp.apply] at h
    split at h
    · cases h
    · cases h
      exact ⟨fun l hl => ⟨l, hl, Int.le_refl l⟩, fun _ => Nat.le_refl _⟩
  | unlockUser | recordLoginSuccess =>
    cases h
    exact ⟨fun l hl => ⟨l, hl, Int.le_refl l⟩, fun _ => Nat.le_refl _⟩
  | recordLoginFailure =>
    simp only [RowOp.apply, User.recordLoginFailure] at h
    split at h
    · cases h
    · cases h
      exact ⟨fun l hl => ⟨l, hl, Int.le_refl l⟩, fun _ => Nat.le_refl _⟩
  | rehashPasswordIfCurrent expectedHash passwordHash =>
    simp only [RowOp.apply, User.rehashPasswordIfCurrent] at h
    split at h
    · cases h
      exact ⟨fun l hl => ⟨l, hl, Int.le_refl l⟩, fun _ => Nat.le_refl _⟩
    · cases h

/-- A property that the methods break only by setting the second factor anew is kept after a call
has written it, until that happens or the call rolls back. -/
theorem kept_consumed {K : User → Prop} {k : Nat} {choice : Choice} {rest : Trace}
    {x : Entry operations State} (hp : Inv cfg p)
    (h : Run (Service.step (layer cfg)) (RollsBackAlone cfg) p
      ((.resume k choice, .replied k x) :: rest) p')
    (hrow : x.before.users.get? key ≠ some u ∧ x.after.users.get? key = some u) (hK : K u)
    (happly : ∀ s op u u', RowOp.apply cfg s key u op = some u' →
      (∀ call, op = .factor call → (Factor.Done.mk call true).isReset = false) → K u → K u')
    (hbump : ∀ u, K u → K u.bumpSecurityVersion) (hnormal : ∀ u, K u → K (normalizeUser cfg u))
    (hrest : ∀ y ∈ rest, ¬ ResetsFactor key y ∧ ¬ RolledBack k y) :
    ∀ u', p'.store.users.get? key = some u' → K u' := by
  cases h with
  | @cons _ m _ _ _ _ hG hstep htail =>
    obtain ⟨hbefore, hafter⟩ : x.before = p.store ∧ x.after = m.store := by
      generalize ho : Service.Output.replied k x = out at hstep
      cases step_move hstep with
      | reply =>
        cases ho
        exact ⟨rfl, rfl⟩
    rw [hbefore, hafter] at hrow
    have hkept : Kept K key (some k) m := hp.kept_written hG hstep hrow.2 hrow.1 hK
    have hm : Inv cfg m := hp.step hG hstep
    refine (hkept.run hm hbump hnormal (htail.strengthen ?_ hrest)).row
    rintro q e q' o hGq hstepq ⟨hreset, hrolled⟩
    refine ⟨hGq, ?_, ?_⟩
    · rintro ⟨n, choice', c, op, next, v, v', rfl, hc, hprogram, hv, hv', hKv, hnot⟩
      refine hnot (happly _ op v v' hv' (fun call hop => ?_) hKv)
      by_contra hyes
      subst hop
      refine hreset ⟨n, call, v', q.store, q.store.setUser key v', ?_, by simpa using hyes⟩
      simp only [Service.step, hc, hprogram, layer, State.answer, State.answerStore, State.row, hv,
        hv'] at hstepq
      cases hstepq
      rfl
    · rintro ⟨n, choice', c, v, next, hn, rfl, hc, hprogram⟩
      cases hn
      refine hrolled ⟨v, q.store,
        q.store.setUser (State.keyOf v) (normalizeUser cfg v), ?_⟩
      simp only [Service.step, hc, hprogram, layer, State.answer] at hstepq
      cases hstepq
      rfl

/-- What holds of a state `m` of a run, the trace from there on, and the state `p` that it leads
to. -/
structure RollbackLaw (cfg : Config) (m : Pool) (tr : Trace) (p : Pool) : Prop where
  /-- The row that a failing mutation writes back is the one that it has found. -/
  row : ∀ n choice u before after rest, tr =
      (.resume n choice, .replied n ⟨.restoreUser u, (), before, after⟩) :: rest →
    ∃ c first, m.calls n = some c ∧ c.log.getLast? = some first ∧
      after.users.get? (State.keyOf u) = first.before.users.get? (State.keyOf u)
  /-- The passkeys that a failing mutation has written back are those that it has found, unless
  another account has registered one of them. -/
  passkeys : ∀ n c key mutate message, p.calls n = some c →
    c.request = .mutateAccountSecurity key mutate → c.program = .done (.threw message) →
    CutShort c.log ∨ ∃ last rest listed, c.log = last :: rest ∧
      c.log.dropLast.getLast? = some listed ∧
      ∀ id, last.after.passkey key id = listed.before.passkey key id
  version : ∀ key u u', m.store.users.get? key = some u → p.store.users.get? key = some u' →
    u.securityVersion ≤ u'.securityVersion
  /-- A TOTP step that a request has consumed stays consumed until the second factor is set anew,
  unless the request itself rolls back. -/
  totp : ∀ k choice key step u before after rest u', tr = (.resume k choice, .replied k
      ⟨.store (.row key (.factor (.consumeTotpStep step))), .written u, before, after⟩) :: rest →
    (∀ x ∈ rest, ¬ ResetsFactor key x ∧ ¬ RolledBack k x) → p.store.users.get? key = some u' →
    ∃ l, u'.lastTotpStep = some l ∧ step ≤ l
  /-- A recovery code that a request has consumed does not come back until then. -/
  recovery : ∀ k choice key digest u before after rest u', tr = (.resume k choice, .replied k
      ⟨.store (.row key (.factor (.consumeRecoveryCode digest))), .written u, before, after⟩) ::
        rest →
    (∀ x ∈ rest, ¬ ResetsFactor key x ∧ ¬ RolledBack k x) → p.store.users.get? key = some u' →
    u'.recoveryCodeHashes.count digest ≤ u.recoveryCodeHashes.count digest
  deleted : ∀ n c key audited u, m.calls n = some c → c.request = .deleteAccount key audited →
    c.program = .done (.deleted u) → p.store.users.get? key = none
  /-- An artifact of an older version is not accepted again. -/
  stale : ∀ key u version, m.store.users.get? key = some u → version < u.securityVersion →
    p.store.securityVersionFor key ≠ some version

/-- The call that has made an entry with a step, and the states before and after it. -/
theorem replied_step {n : Nat} {choice : Choice} {x : Entry operations State}
    (h : Service.step (layer cfg) p (.resume n choice) = some (p', .replied n x)) :
    ∃ c next, p.calls n = some c ∧ c.program = .await x.op next ∧ x.before = p.store ∧
      x.after = p'.store ∧ State.answer cfg p.store choice x.op = some (x.res, p'.store) := by
  generalize ho : Service.Output.replied n x = out at h
  cases step_move h with
  | reply hc hprogram hanswer =>
    cases ho
    exact ⟨_, _, hc, hprogram, rfl, rfl, hanswer⟩

/-- The row before and after a method has written it. -/
theorem written_step {n : Nat} {choice : Choice} {op : RowOp} {before after : State}
    (h : Service.step (layer cfg) p (.resume n choice) =
      some (p', .replied n ⟨.store (.row key op), .written u, before, after⟩)) :
    ∃ u₀, before.users.get? key = some u₀ ∧ op.apply cfg before key u₀ = some u ∧
      after.users.get? key = some u := by
  obtain ⟨_, _, -, -, hbefore, hafter, hanswer⟩ := replied_step h
  dsimp only at hbefore hafter hanswer
  subst hbefore
  subst hafter
  simp only [State.answer, State.answerStore, State.row, Option.some.injEq] at hanswer
  split at hanswer
  · cases hanswer
  · rename_i u₀ hu₀
    split at hanswer
    · cases hanswer
    · rename_i u' happly
      simp only [Prod.mk.injEq, RowResult.written.injEq] at hanswer
      obtain ⟨rfl, hstore⟩ := hanswer
      refine ⟨u₀, hu₀, happly, ?_⟩
      rw [← hstore, get?_setUser]
      simp

section Law

variable {clock : Instant} {tr₁ tr₂ : Trace} {m : Pool}

/-- A condition on the row of the account that nothing breaks. -/
theorem kept_always {K : User → Prop} (hm : Inv cfg m) (hK : Kept K key none m)
    (hbump : ∀ u, K u → K u.bumpSecurityVersion) (hnormal : ∀ u, K u → K (normalizeUser cfg u))
    (happly : ∀ s op u u', RowOp.apply cfg s key u op = some u' → K u → K u')
    (h : Run (Service.step (layer cfg)) (RollsBackAlone cfg) m tr₂ p) :
    ∀ u, p.store.users.get? key = some u → K u := by
  refine (hK.run hm hbump hnormal (h.weaken fun q e hG => ⟨hG, ?_, ?_⟩)).row
  · rintro ⟨_, _, _, op, _, u, u', _, _, _, _, hu', hu, hnot⟩
    exact hnot (happly _ op u u' hu' hu)
  · rintro ⟨_, _, _, _, _, hnone, _⟩
    cases hnone

theorem version_run (hm : Inv cfg m)
    (h : Run (Service.step (layer cfg)) (RollsBackAlone cfg) m tr₂ p) {u' : User}
    (hu : m.store.users.get? key = some u) (hu' : p.store.users.get? key = some u') :
    u.securityVersion ≤ u'.securityVersion := by
  refine kept_always hm (hm.kept_version hu) (fun _ h => Nat.le_succ_of_le h) (fun _ h => h) ?_ h
    u' hu'
  intro s op v v' happly hle
  exact Nat.le_trans hle (Nat.le_of_eq (apply_keeps happly).2.symm)

theorem row_restored {n : Nat} {choice : Choice} {before after : State} {rest : Trace}
    (hm : Inv cfg m) (h : Run (Service.step (layer cfg)) (RollsBackAlone cfg) m
      ((.resume n choice, .replied n ⟨.restoreUser u, (), before, after⟩) :: rest) p) :
    ∃ c first, m.calls n = some c ∧ c.log.getLast? = some first ∧
      after.users.get? (State.keyOf u) = first.before.users.get? (State.keyOf u) := by
  cases h with
  | cons hG hstep _ =>
    obtain ⟨c, next, hc, hprogram, -, hafter, hanswer⟩ := replied_step hstep
    obtain ⟨key, mutate, hrequest, hstore, ⟨before', after', hlast⟩, hkey, -⟩ :=
      hm.restored hc hprogram
    obtain ⟨-, hnormal⟩ := (RollsBackAlone.resume hG hc hrequest hprogram).1
    have hread := answer_find (hm.answers n c hc _ (List.mem_of_getLast? hlast))
    refine ⟨c, _, hc, hlast, ?_⟩
    rw [hkey, ← hread.1]
    have hpair : some ((), m.store.setUser (State.keyOf u) (normalizeUser cfg u)) =
        some ((), _) := hanswer
    simp only [Option.some.injEq, Prod.mk.injEq, true_and] at hpair
    dsimp only at hafter
    rw [hafter, ← hpair, get?_setUser, hkey, hnormal]
    simp

theorem passkeys_restored {tr : Trace}
    (h : Run (Service.step (layer cfg)) (RollsBackAlone cfg) (.initial (.empty clock)) tr p) {n : Nat}
    {c : Call} {mutate : Program storeMethods Outcome} {message : String} (hc : p.calls n = some c)
    (hrequest : c.request = .mutateAccountSecurity key mutate)
    (hdone : c.program = .done (.threw message)) :
    CutShort c.log ∨ ∃ last rest listed, c.log = last :: rest ∧
      c.log.dropLast.getLast? = some listed ∧
      ∀ id, last.after.passkey key id = listed.before.passkey key id := by
  have hp : Inv cfg p := inv_run h
  have hreturns := (layer_spec cfg).finished h hc hdone
  rw [hrequest] at hreturns
  rcases hreturns with hback | hcut
  · right
    have hlinked := hp.linked n c hc
    have hanswers := hp.answers n c hc
    obtain ⟨_, _, _, _, _, _, _, _, _, _, ⟨_, _, _, _, hdeletes, hcreates⟩⟩ := id hback
    obtain ⟨last, rest, hlog⟩ :=
      List.exists_cons_of_ne_nil (hcreates.ne_nil (hdeletes.ne_nil (by simp)))
    rw [hlog] at hback hlinked hanswers
    obtain ⟨x, hx, hrestore⟩ := hback.writingBack rfl
    have hquiet := passkeys_run h hc hrequest hlog ⟨x, hx, hrestore⟩
    obtain ⟨hwf, hown, -, hrest⟩ := hlinked
    obtain ⟨listed, hlisted, -, hsame⟩ := hback.passkeys ⟨hwf, hown, ⟨[], .refl _⟩, hrest⟩
      hanswers ((steady_cons (List.ne_nil_of_mem hx)).mpr ⟨rfl, hquiet⟩)
    exact ⟨last, rest, listed, hlog, hlog ▸ hlisted, hsame⟩
  · exact .inl hcut

theorem totp_kept {k : Nat} {choice : Choice} {step : Int} {before after : State} {rest : Trace}
    {u' : User} (hm : Inv cfg m) (h : Run (Service.step (layer cfg)) (RollsBackAlone cfg) m
      ((.resume k choice, .replied k ⟨.store (.row key (.factor (.consumeTotpStep step))),
        .written u, before, after⟩) :: rest) p)
    (hrest : ∀ x ∈ rest, ¬ ResetsFactor key x ∧ ¬ RolledBack k x)
    (hu' : p.store.users.get? key = some u') : ∃ l, u'.lastTotpStep = some l ∧ step ≤ l := by
  obtain ⟨u₀, hu₀, happly, hu⟩ : ∃ u₀, before.users.get? key = some u₀ ∧
      RowOp.apply cfg before key u₀ (.factor (.consumeTotpStep step)) = some u ∧
      after.users.get? key = some u := by
    cases h with
    | cons _ hstep _ => exact written_step hstep
  have hcall : (Factor.Call.consumeTotpStep step).apply .memory before.clock u₀ = some u := happly
  obtain ⟨hnewer, hlast⟩ := Factor.lastTotpStep_apply hcall rfl
  refine kept_consumed (K := fun v => ∃ l, v.lastTotpStep = some l ∧ step ≤ l) hm h ⟨?_, hu⟩
    ⟨step, hlast, Int.le_refl _⟩ ?_ (fun _ h => h) (fun _ h => h) hrest u' hu'
  · intro hsame
    cases hu₀.symm.trans hsame
    exact Int.lt_irrefl _ (hnewer step hlast)
  · rintro s op v v' hv hreset ⟨l, hl, hle⟩
    obtain ⟨l', hl', hle'⟩ := (apply_consumed hv hreset).1 l hl
    exact ⟨l', hl', Int.le_trans hle hle'⟩

theorem recovery_kept {k : Nat} {choice : Choice} {digest : String} {before after : State}
    {rest : Trace} {u' : User} (hm : Inv cfg m)
    (h : Run (Service.step (layer cfg)) (RollsBackAlone cfg) m
      ((.resume k choice, .replied k ⟨.store (.row key (.factor (.consumeRecoveryCode digest))),
        .written u, before, after⟩) :: rest) p)
    (hrest : ∀ x ∈ rest, ¬ ResetsFactor key x ∧ ¬ RolledBack k x)
    (hu' : p.store.users.get? key = some u') :
    u'.recoveryCodeHashes.count digest ≤ u.recoveryCodeHashes.count digest := by
  obtain ⟨u₀, hu₀, happly, hu⟩ : ∃ u₀, before.users.get? key = some u₀ ∧
      RowOp.apply cfg before key u₀ (.factor (.consumeRecoveryCode digest)) = some u ∧
      after.users.get? key = some u := by
    cases h with
    | cons _ hstep _ => exact written_step hstep
  have hcall : (Factor.Call.consumeRecoveryCode digest).apply .memory before.clock u₀ = some u :=
    happly
  have hcount := Factor.count_apply hcall rfl digest
  refine kept_consumed (K := fun v => v.recoveryCodeHashes.count digest ≤
    u.recoveryCodeHashes.count digest) hm h ⟨?_, hu⟩ (Nat.le_refl _) ?_ (fun _ h => h)
    (fun _ h => h) hrest u' hu'
  · intro hsame
    cases hu₀.symm.trans hsame
    simp at hcount
  · intro s op v v' hv hreset hle
    exact Nat.le_trans ((apply_consumed hv hreset).2 digest) hle

/-- A rollback of the development store undoes only the writes of its own mutation. -/
theorem rollback_law
    (h₁ : Run (Service.step (layer cfg)) (RollsBackAlone cfg) (.initial (.empty clock)) tr₁ m)
    (h₂ : Run (Service.step (layer cfg)) (RollsBackAlone cfg) m tr₂ p) :
    RollbackLaw cfg m tr₂ p := by
  have hm : Inv cfg m := inv_run h₁
  constructor
  · rintro n choice u before after rest rfl
    exact row_restored hm h₂
  · intro n c key mutate message hc hrequest hdone
    exact passkeys_restored (h₁.append h₂) hc hrequest hdone
  · intro key u u' hu hu'
    exact version_run hm h₂ hu hu'
  · rintro k choice key step u before after rest u' rfl hrest hu'
    exact totp_kept hm h₂ hrest hu'
  · rintro k choice key digest u before after rest u' rfl hrest hu'
    exact recovery_kept hm h₂ hrest hu'
  · intro n c key audited u hc hrequest hdone
    have hgone := kept_always hm (gone_run h₁ hc hrequest hdone) (fun _ h => h) (fun _ h => h)
      (fun _ _ _ _ _ h => h) h₂
    exact Option.eq_none_iff_forall_ne_some.mpr fun v hv => hgone v hv
  · intro key u version hu hlt hstale
    obtain ⟨u', hu', hversion⟩ := Option.bind_eq_some_iff.mp hstale
    have hle := version_run hm h₂ hu hu'
    split at hversion
    · cases hversion
      omega
    · cases hversion

end Law

/-! ## Runs -/

section Runs

def firstSecond : Instant := ⟨1001, by decide⟩

def asciiConfig : Config := ⟨fun s => String.ofList (s.toList.map asciiLower)⟩

def alice : User where
  realm := "master"
  id := "1"
  username := "alice"
  email := "alice@example.test"
  name := "alice"

/-- A mutation whose audit event cannot be written, after it has changed the roles. -/
def failingUpdate : Program storeMethods Outcome :=
  .await (.row ("master", "1") (.updateUser { roles := some ["admin"] })) fun _ =>
    .await .writeAudit fun written =>
      .done (if written then .returned true else .threw "audit unavailable")

def consumeStep : Program storeMethods Unit :=
  .await (.row ("master", "1") (.factor (.consumeTotpStep 7))) fun _ => .done ()

/-- A mutation fails after a TOTP step was consumed: the roles are as they were, and the step stays
consumed. -/
theorem rollback_law_of_failing_update : ∃ tr₁ m tr₂ p,
    Run (Service.step (layer asciiConfig)) (RollsBackAlone asciiConfig)
        (.initial (.empty firstSecond)) tr₁ m ∧
      Run (Service.step (layer asciiConfig)) (RollsBackAlone asciiConfig) m tr₂ p ∧
      RollbackLaw asciiConfig m tr₂ p ∧
      p.store.users.get? ("master", "1") = some { alice with lastTotpStep := some 7 } := by
  let key : UserKey := ("master", "1")
  obtain ⟨m, os, p, os', h, h', hrow⟩ : ∃ m os p os',
      exec (Service.step (layer asciiConfig)) (RollsBackAlone asciiConfig)
        (.initial (.empty firstSecond))
        [.start (.createUser alice), .resume 0 .none, .start (.methods consumeStep)] =
        some (m, os) ∧
      exec (Service.step (layer asciiConfig)) (RollsBackAlone asciiConfig) m
        [.resume 1 .none, .start (.mutateAccountSecurity key failingUpdate), .resume 2 .none,
          .resume 2 (.listed []), .resume 2 .none, .resume 2 .fails, .resume 2 .none,
          .resume 2 (.listed [])] = some (p, os') ∧
      p.store.users.get? key = some { alice with lastTotpStep := some 7 } :=
    ⟨_, _, _, _, rfl, rfl, rfl⟩
  have h₁ := Run.of_exec h
  have h₂ := Run.of_exec h'
  exact ⟨_, m, _, p, h₁, h₂, rollback_law h₁ h₂, hrow⟩

/-- While a mutation that will fail is under way, another one raises the security version, and a
TOTP step is consumed. -/
theorem rollback_counterexample : ∃ tr₁ m tr₂ p,
    Run (Service.step (layer asciiConfig)) Always (.initial (.empty firstSecond)) tr₁ m ∧
      Run (Service.step (layer asciiConfig)) Always m tr₂ p ∧
      (∃ u u', m.store.users.get? ("master", "1") = some u ∧
        p.store.users.get? ("master", "1") = some u' ∧
        u'.securityVersion < u.securityVersion ∧
        u.lastTotpStep = some 7 ∧ u'.lastTotpStep = none) ∧
      m.store.securityVersionFor ("master", "1") ≠ some 0 ∧
      p.store.securityVersionFor ("master", "1") = some 0 := by
  let key : UserKey := ("master", "1")
  obtain ⟨m, os, p, os', h, h', hrest⟩ : ∃ m os p os',
      exec (Service.step (layer asciiConfig)) Always (.initial (.empty firstSecond))
        [.start (.createUser alice), .resume 0 .none,
          .start (.mutateAccountSecurity key failingUpdate), .resume 1 .none,
          .resume 1 (.listed []), .resume 1 .none,
          .start (.mutateAccountSecurity key (.done (.returned true))), .resume 2 .none,
          .resume 2 (.listed []), .resume 2 .none, .resume 2 .none, .resume 2 .none,
          .start (.methods consumeStep), .resume 3 .none] = some (m, os) ∧
      exec (Service.step (layer asciiConfig)) Always m [.resume 1 .fails, .resume 1 .none] =
        some (p, os') ∧
      (∃ u u', m.store.users.get? key = some u ∧ p.store.users.get? key = some u' ∧
        u'.securityVersion < u.securityVersion ∧
        u.lastTotpStep = some 7 ∧ u'.lastTotpStep = none) ∧
      m.store.securityVersionFor key ≠ some 0 ∧ p.store.securityVersionFor key = some 0 :=
    ⟨_, _, _, _, rfl, rfl, ⟨_, _, rfl, rfl, by decide, rfl, rfl⟩, by decide, rfl⟩
  exact ⟨_, m, _, p, .of_exec h, .of_exec h', hrest⟩

end Runs

end AuthMe.DataLayer

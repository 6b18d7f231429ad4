import AuthMe.DataLayer.MutationSpec

/-!
# What the operations of the data layer write

`RowStep` says what an operation can do to the row of an account, and `Written s s' parts` that
`parts` has been written between two states: the rows and the passkeys of other accounts are as
they were.
-/

namespace AuthMe.DataLayer

open Service Store

variable {cfg : Config} {s s' s'' : State} {choice : Choice}

/-! ## Rows -/

/-- The rows are stored under their own keys, and the keys have been issued. -/
structure Wf (s : State) : Prop where
  users : ∀ key u, s.users.get? key = some u → State.keyOf u = key ∧ key ∈ s.issued
  credentials : ∀ realm id c, s.credentials.get? (realm, id) = some c → c.realm = realm ∧ c.id = id

theorem wf_empty (clock : Instant) : Wf (.empty clock) :=
  ⟨fun key u h => by simp [State.empty] at h, fun realm id c h => by simp [State.empty] at h⟩

@[simp] theorem keyOf_normalizeUser (u : User) :
    State.keyOf (normalizeUser cfg u) = State.keyOf u := rfl

/-- The identity of an account and its security version are not a method's to write. -/
theorem apply_keeps {key : UserKey} {op : RowOp} {u u' : User}
    (h : op.apply cfg s key u = some u') :
    State.keyOf u' = State.keyOf u ∧ u'.securityVersion = u.securityVersion := by
  cases op with
  | updateUser patch =>
    simp only [RowOp.apply] at h
    split at h
    · cases h
    · cases h
      exact ⟨rfl, rfl⟩
  | unlockUser | recordLoginSuccess =>
    cases h
    exact ⟨rfl, rfl⟩
  | recordLoginFailure =>
    simp only [RowOp.apply, User.recordLoginFailure] at h
    split at h
    · cases h
    · cases h
      exact ⟨rfl, rfl⟩
  | rehashPasswordIfCurrent expectedHash passwordHash =>
    simp only [RowOp.apply, User.rehashPasswordIfCurrent] at h
    split at h
    · cases h
      exact ⟨rfl, rfl⟩
    · cases h
  | factor call =>
    cases call with
    | beginTotpEnrollment _ | configureTotp _ =>
      cases h
      exact ⟨rfl, rfl⟩
    | confirmTotpEnrollment e =>
      simp only [RowOp.apply, Factor.Call.apply, User.confirmTotpEnrollment] at h
      split at h
      · cases h
        exact ⟨rfl, rfl⟩
      · cases h
    | consumeTotpStep step =>
      simp only [RowOp.apply, Factor.Call.apply, User.acceptTotpStep, User.consumeTotpStep] at h
      split at h
      · split at h
        · cases h
          exact ⟨rfl, rfl⟩
        · split at h
          · cases h
            exact ⟨rfl, rfl⟩
          · cases h
      · cases h
    | consumeRecoveryCode digest =>
      simp only [RowOp.apply, Factor.Call.apply, User.consumeRecoveryCode] at h
      split at h
      · cases h
        exact ⟨rfl, rfl⟩
      · cases h

/-! ## Parts -/

/-- The passkey of the account with this identifier. -/
def State.passkey (s : State) (key : UserKey) (id : String) : Option Credential :=
  (s.credentials.get? (key.1, id)).filter fun c => c.userId = key.2

theorem State.passkey_eq_some {key : UserKey} {id : String} {c : Credential} :
    s.passkey key id = some c ↔ s.credentials.get? (key.1, id) = some c ∧ c.userId = key.2 := by
  simp [State.passkey, Option.filter_eq_some_iff]

/-- Between the two states only these parts have been written. -/
structure Written (s s' : State) (parts : List Part) : Prop where
  writes : s'.writes = parts ++ s.writes
  row : ∀ key, .row key ∉ parts → s'.users.get? key = s.users.get? key
  passkeys : ∀ key, .passkeys key ∉ parts → ∀ id, s'.passkey key id = s.passkey key id
  stays : ∀ key, .passkeys key ∉ parts → s.users.get? key ≠ none → s'.users.get? key ≠ none
  issued : ∀ key ∈ s.issued, key ∈ s'.issued

namespace Written

theorem refl (s : State) : Written s s [] :=
  ⟨rfl, fun _ _ => rfl, fun _ _ _ => rfl, fun _ _ h => h, fun _ h => h⟩

theorem trans {parts parts' : List Part} (h : Written s s' parts) (h' : Written s' s'' parts') :
    Written s s'' (parts' ++ parts) := by
  have hsplit : ∀ {part}, part ∉ parts' ++ parts → part ∉ parts' ∧ part ∉ parts := fun hpart =>
    ⟨fun hmem => hpart (List.mem_append_left _ hmem),
      fun hmem => hpart (List.mem_append_right _ hmem)⟩
  constructor
  · rw [h'.writes, h.writes, List.append_assoc]
  · intro key hkey
    rw [h'.row key (hsplit hkey).1, h.row key (hsplit hkey).2]
  · intro key hkey id
    rw [h'.passkeys key (hsplit hkey).1, h.passkeys key (hsplit hkey).2]
  · intro key hkey hrow
    exact h'.stays key (hsplit hkey).1 (h.stays key (hsplit hkey).2 hrow)
  · exact fun key hkey => h'.issued key (h.issued key hkey)

theorem count_le {parts : List Part} (h : Written s s' parts) (part : Part) :
    s.writes.count part ≤ s'.writes.count part := by
  rw [h.writes, List.count_append]
  exact Nat.le_add_left _ _

theorem not_mem_of_count {parts : List Part} (h : Written s s' parts) {part : Part}
    (hcount : s'.writes.count part = s.writes.count part) : part ∉ parts := by
  rw [h.writes, List.count_append] at hcount
  intro hmem
  have := List.count_pos_iff.mpr hmem
  omega

end Written

theorem written_setUser (s : State) (key : UserKey) (u : User) :
    Written s (s.setUser key u) [.row key] := by
  refine ⟨rfl, fun other hother => ?_, fun _ _ _ => rfl, fun other _ hrow => ?_, fun _ h => h⟩
  · have hne : other ≠ key := fun heq => hother (heq ▸ List.mem_singleton.mpr rfl)
    exact s.users.get?_set_of_ne hne u
  · change (s.users.set key u).get? other ≠ none
    rw [OrderedMap.get?_set]
    split
    · simp
    · exact hrow

theorem written_setCredential {c : Credential}
    (h : ∀ old, s.credentials.get? (c.realm, c.id) = some old → old.userId = c.userId) :
    Written s (s.setCredential c) [.passkeys (c.realm, c.userId)] := by
  refine ⟨rfl, fun _ _ => rfl, fun key hkey id => ?_, fun _ _ hrow => hrow, fun _ h => h⟩
  have hne : key ≠ (c.realm, c.userId) := fun heq => hkey (heq ▸ List.mem_singleton.mpr rfl)
  apply Option.ext
  intro found
  rw [State.passkey_eq_some, State.passkey_eq_some]
  simp only [State.setCredential, State.wrote, OrderedMap.get?_set]
  split
  · rename_i hplace
    obtain ⟨hrealm, rfl⟩ := Prod.mk.inj hplace
    have huser : c.userId ≠ key.2 := fun heq => hne (Prod.ext hrealm heq.symm)
    constructor
    · rintro ⟨heq, hfound⟩
      cases heq
      exact absurd hfound huser
    · rintro ⟨hold, hfound⟩
      rw [hrealm] at hold
      exact absurd ((h found hold).symm.trans hfound) huser
  · rfl

theorem written_deleteUser (hs : Wf s) (key : UserKey) : ∃ parts,
    Written s (s.deleteUser key).2 parts := by
  unfold State.deleteUser
  split
  · exact ⟨[], .refl s⟩
  · refine ⟨[.row key, .passkeys key], rfl, fun other hother => ?_, fun other hother id => ?_,
      fun other hother hrow => ?_, fun _ h => h⟩
    · have hne : other ≠ key := fun heq => hother (heq ▸ by simp)
      exact s.users.get?_erase_of_ne hne
    · have hne : other ≠ key := fun heq => hother (heq ▸ by simp)
      apply Option.ext
      intro c
      rw [State.passkey_eq_some, State.passkey_eq_some, OrderedMap.get?_filter,
        Option.filter_eq_some_iff]
      constructor
      · rintro ⟨⟨hget, -⟩, huser⟩
        exact ⟨hget, huser⟩
      · rintro ⟨hget, huser⟩
        have hrealm := (hs.credentials _ _ _ hget).1
        have hkept : ¬ (c.realm = key.1 ∧ c.userId = key.2) := fun ⟨h1, h2⟩ =>
          hne (Prod.ext (hrealm.symm.trans h1) (huser.symm.trans h2))
        refine ⟨⟨hget, ?_⟩, huser⟩
        simpa using not_and_or.mp hkept
    · have hne : other ≠ key := fun heq => hother (heq ▸ by simp)
      change (s.users.erase key).get? other ≠ none
      rw [s.users.get?_erase_of_ne hne]
      exact hrow

theorem written_eraseCredential (key : UserKey) (id : String) :
    ∃ parts, Written s (s.eraseCredential key id).2 parts := by
  unfold State.eraseCredential
  split
  · exact ⟨[], .refl s⟩
  · rename_i c hc
    split
    · rename_i huser
      refine ⟨[.passkeys key], rfl, fun _ _ => rfl, fun other hother id' => ?_, fun _ _ h => h,
        fun _ h => h⟩
      have hne : other ≠ key := fun heq => hother (heq ▸ List.mem_singleton.mpr rfl)
      apply Option.ext
      intro found
      rw [State.passkey_eq_some, State.passkey_eq_some]
      simp only [State.wrote, OrderedMap.get?_erase]
      split
      · rename_i hplace
        obtain ⟨hrealm, rfl⟩ := Prod.mk.inj hplace
        constructor
        · rintro ⟨heq, -⟩
          cases heq
        · rintro ⟨hget, hfound⟩
          rw [hrealm, hc] at hget
          cases hget
          exact absurd (Prod.ext hrealm (hfound.symm.trans huser)) hne
      · rfl
    · exact ⟨[], .refl s⟩

theorem updateCounter_keeps {c c' : Credential} {expectedCounter : Nat} {v : Verification}
    (h : c.updateCounter expectedCounter v = some c') :
    c'.realm = c.realm ∧ c'.id = c.id ∧ c'.userId = c.userId := by
  unfold Credential.updateCounter at h
  split at h
  · cases h
    exact ⟨rfl, rfl, rfl⟩
  · cases h

/-- An operation writes to some parts. -/
theorem answer_written (hs : Wf s) {op : Op} {res : op.Res}
    (h : State.answer cfg s choice op = some (res, s')) : ∃ parts, Written s s' parts := by
  cases op with
  | store op =>
    cases op with
    | findUserById key => cases h; exact ⟨[], .refl s⟩
    | row key op =>
      simp only [State.answer, State.answerStore, State.row, Option.some.injEq] at h
      split at h
      · cases h; exact ⟨[], .refl s⟩
      · split at h
        · cases h; exact ⟨[], .refl s⟩
        · cases h; exact ⟨_, written_setUser s key _⟩
    | listWebAuthnCredentials key =>
      simp only [State.answer, State.answerStore] at h
      split at h
      · split at h
        · cases h; exact ⟨[], .refl s⟩
        · cases h
      · cases h
    | createWebAuthnCredential c =>
      simp only [State.answer, State.answerStore, State.createWebAuthnCredential,
        Option.some.injEq] at h
      split at h
      · cases h; exact ⟨[], .refl s⟩
      · cases h; exact ⟨[], .refl s⟩
      · rename_i hfree
        cases h
        refine ⟨_, written_setCredential fun old hold => ?_⟩
        rw [hfree] at hold
        cases hold
    | updateWebAuthnCredentialCounter realm id expectedCounter v =>
      simp only [State.answer, State.answerStore, State.updateCounter, Option.some.injEq] at h
      split at h
      · cases h; exact ⟨[], .refl s⟩
      · rename_i c hc
        obtain ⟨c₀, hc₀, hupdate⟩ := Option.bind_eq_some_iff.mp hc
        obtain ⟨hrealm, hid, huser⟩ := updateCounter_keeps hupdate
        obtain ⟨hrealm₀, hid₀⟩ := hs.credentials _ _ _ hc₀
        cases h
        refine ⟨_, written_setCredential fun old hold => ?_⟩
        rw [hrealm, hid, hrealm₀, hid₀, hc₀] at hold
        cases hold
        exact huser.symm
    | deleteWebAuthnCredential key id =>
      simp only [State.answer, State.answerStore, Option.some.injEq] at h
      obtain ⟨parts, hparts⟩ := written_eraseCredential (s := s) key id
      rw [h] at hparts
      exact ⟨parts, hparts⟩
    | writeAudit => cases h; exact ⟨[], .refl s⟩
  | bumpSecurityVersion key =>
    simp only [State.answer] at h
    split at h
    · cases h; exact ⟨[], .refl s⟩
    · cases h; exact ⟨_, written_setUser s key _⟩
  | restoreUser u => cases h; exact ⟨_, written_setUser s _ _⟩
  | deleteUser key =>
    simp only [State.answer, Option.some.injEq] at h
    obtain ⟨parts, hparts⟩ := written_deleteUser hs key
    rw [h] at hparts
    exact ⟨parts, hparts⟩
  | createUser u =>
    simp only [State.answer] at h
    split at h
    · cases h
    · have hissued : Written s { s with issued := State.keyOf u :: s.issued } [] :=
        ⟨rfl, fun _ _ => rfl, fun _ _ _ => rfl, fun _ _ h => h, fun _ h => List.mem_cons_of_mem _ h⟩
      simp only [State.insertUser, Option.some.injEq] at h
      split at h
      · cases h; exact ⟨[], hissued⟩
      · split at h
        · cases h; exact ⟨[], hissued⟩
        · cases h; exact ⟨_, hissued.trans (written_setUser _ _ _)⟩
  | recreateUser u =>
    simp only [State.answer, State.insertUser, Option.some.injEq] at h
    split at h
    · cases h; exact ⟨[], .refl s⟩
    · split at h
      · cases h; exact ⟨[], .refl s⟩
      · cases h; exact ⟨_, written_setUser s _ _⟩
  | findAdminGrant key => cases h; exact ⟨[], .refl s⟩
  | restoreAdminGrant key grant =>
    cases h
    exact ⟨[], ⟨rfl, fun _ _ => rfl, fun _ _ _ => rfl, fun _ _ h => h, fun _ h => h⟩⟩
  | revokeMemoryAccount key => cases h; exact ⟨[], .refl s⟩

theorem Wf.setUser (hs : Wf s) {u : User} (hissued : State.keyOf u ∈ s.issued) :
    Wf (s.setUser (State.keyOf u) u) := by
  refine ⟨fun key u' h => ?_, hs.credentials⟩
  change (s.users.set (State.keyOf u) u).get? key = some u' at h
  rw [OrderedMap.get?_set] at h
  split at h
  · rename_i hkey
    cases h
    exact ⟨hkey.symm, hkey ▸ hissued⟩
  · exact hs.users key u' h

theorem Wf.setCredential (hs : Wf s) (c : Credential) : Wf (s.setCredential c) := by
  refine ⟨hs.users, fun realm id c' h => ?_⟩
  change (s.credentials.set (c.realm, c.id) c).get? (realm, id) = some c' at h
  rw [OrderedMap.get?_set] at h
  split at h
  · rename_i hplace
    cases h
    cases hplace
    exact ⟨rfl, rfl⟩
  · exact hs.credentials realm id c' h

theorem Wf.issued {issued : List UserKey} (hs : Wf s) (h : ∀ key ∈ s.issued, key ∈ issued) :
    Wf { s with issued := issued } :=
  ⟨fun key u hu => ⟨(hs.users key u hu).1, h key (hs.users key u hu).2⟩, hs.credentials⟩

/-- An operation keeps the store well formed, if it puts back users with issued identifiers. -/
theorem answer_wf (hs : Wf s) {op : Op} {res : op.Res}
    (h : State.answer cfg s choice op = some (res, s'))
    (hissued : ∀ u, op = .restoreUser u ∨ op = .recreateUser u → State.keyOf u ∈ s.issued) :
    Wf s' := by
  cases op with
  | store op =>
    cases op with
    | row key op =>
      simp only [State.answer, State.answerStore, State.row, Option.some.injEq] at h
      split at h
      · cases h; exact hs
      · rename_i u hu
        split at h
        · cases h; exact hs
        · rename_i u' happly
          cases h
          obtain ⟨hkey, hmem⟩ := hs.users key u hu
          have hkey' : State.keyOf u' = key := (apply_keeps happly).1.trans hkey
          rw [← hkey'] at hmem ⊢
          exact hs.setUser hmem
    | findUserById _ | writeAudit => cases h; exact hs
    | listWebAuthnCredentials other =>
      simp only [State.answer, State.answerStore] at h
      split at h
      · split at h
        · cases h; exact hs
        · cases h
      · cases h
    | createWebAuthnCredential c =>
      simp only [State.answer, State.answerStore, State.createWebAuthnCredential,
        Option.some.injEq] at h
      split at h
      · cases h; exact hs
      · cases h; exact hs
      · cases h; exact hs.setCredential c
    | updateWebAuthnCredentialCounter realm id expectedCounter v =>
      simp only [State.answer, State.answerStore, State.updateCounter, Option.some.injEq] at h
      split at h
      · cases h; exact hs
      · cases h; exact hs.setCredential _
    | deleteWebAuthnCredential other id =>
      simp only [State.answer, State.answerStore, State.eraseCredential, Option.some.injEq] at h
      split at h
      · cases h; exact hs
      · split at h
        · cases h
          refine ⟨hs.users, fun realm id c hc => ?_⟩
          change (s.credentials.erase _).get? (realm, id) = some c at hc
          rw [OrderedMap.get?_erase] at hc
          split at hc
          · cases hc
          · exact hs.credentials realm id c hc
        · cases h; exact hs
  | bumpSecurityVersion other =>
    simp only [State.answer] at h
    split at h
    · cases h; exact hs
    · rename_i u hu
      cases h
      obtain ⟨hkey, hmem⟩ := hs.users other u hu
      have hwf : Wf (s.setUser (State.keyOf u.bumpSecurityVersion) u.bumpSecurityVersion) :=
        hs.setUser (u := u.bumpSecurityVersion) (hkey ▸ hmem)
      rwa [show State.keyOf u.bumpSecurityVersion = other from hkey] at hwf
  | restoreUser u =>
    cases h
    exact hs.setUser (u := normalizeUser cfg u) (hissued u (.inl rfl))
  | deleteUser other =>
    simp only [State.answer, State.deleteUser, Option.some.injEq] at h
    split at h
    · cases h; exact hs
    · cases h
      refine ⟨fun key u hu => ?_, fun realm id c hc => ?_⟩
      · change (s.users.erase other).get? key = some u at hu
        rw [OrderedMap.get?_erase] at hu
        split at hu
        · cases hu
        · exact hs.users key u hu
      · change (s.credentials.filter _).get? (realm, id) = some c at hc
        rw [OrderedMap.get?_filter, Option.filter_eq_some_iff] at hc
        exact hs.credentials realm id c hc.1
  | createUser u =>
    simp only [State.answer] at h
    split at h
    · cases h
    · have hmore : Wf { s with issued := State.keyOf u :: s.issued } :=
        hs.issued fun _ => List.mem_cons_of_mem _
      simp only [State.insertUser, Option.some.injEq] at h
      split at h
      · cases h; exact hmore
      · split at h
        · cases h; exact hmore
        · cases h
          exact hmore.setUser (u := normalizeUser cfg u) List.mem_cons_self
  | recreateUser u =>
    simp only [State.answer, State.insertUser, Option.some.injEq] at h
    split at h
    · cases h; exact hs
    · split at h
      · cases h; exact hs
      · cases h
        exact hs.setUser (u := normalizeUser cfg u) (hissued u (.inr rfl))
  | findAdminGrant _ | revokeMemoryAccount _ => cases h; exact hs
  | restoreAdminGrant _ _ =>
    cases h
    exact ⟨hs.users, hs.credentials⟩

/-- What an operation does to the row of an account. -/
inductive RowStep (cfg : Config) (key : UserKey) (s s' : State) : (op : Op) → op.Res → Prop
  | same {op : Op} {res : op.Res} (h : s'.users.get? key = s.users.get? key) :
      RowStep cfg key s s' op res
  | row {op : RowOp} {u u' : User} (hu : s.users.get? key = some u)
      (happly : op.apply cfg s key u = some u') (hu' : s'.users.get? key = some u') :
      RowStep cfg key s s' (.store (.row key op)) (.written u')
  | bumped {u : User} (hu : s.users.get? key = some u)
      (hu' : s'.users.get? key = some u.bumpSecurityVersion) :
      RowStep cfg key s s' (.bumpSecurityVersion key) ()
  | restored {u : User} (hkey : State.keyOf u = key)
      (hu' : s'.users.get? key = some (normalizeUser cfg u)) :
      RowStep cfg key s s' (.restoreUser u) ()
  | deleted {u : User} (hu : s.users.get? key = some u) (hu' : s'.users.get? key = none) :
      RowStep cfg key s s' (.deleteUser key) (some u)
  | created {u : User} (hfresh : key ∉ s.issued)
      (hu' : s'.users.get? key = some (normalizeUser cfg u)) :
      RowStep cfg key s s' (.createUser u) none
  | recreated {u : User} (hkey : State.keyOf u = key) (habsent : s.users.get? key = none)
      (hu' : s'.users.get? key = some (normalizeUser cfg u)) :
      RowStep cfg key s s' (.recreateUser u) none

theorem get?_setUser (s : State) (key a : UserKey) (u : User) :
    (s.setUser key u).users.get? a = if a = key then some u else s.users.get? a :=
  s.users.get?_set key a u

theorem answer_row {op : Op} {res : op.Res} (h : State.answer cfg s choice op = some (res, s'))
    (key : UserKey) : RowStep cfg key s s' op res := by
  cases op with
  | store op =>
    cases op with
    | row other op =>
      simp only [State.answer, State.answerStore, State.row, Option.some.injEq] at h
      split at h
      · cases h; exact .same rfl
      · rename_i u hu
        split at h
        · cases h; exact .same rfl
        · rename_i u' happly
          cases h
          by_cases hkey : key = other
          · subst hkey
            exact .row hu happly (by simp [get?_setUser])
          · exact .same (by simp [get?_setUser, hkey])
    | findUserById _ | writeAudit => cases h; exact .same rfl
    | listWebAuthnCredentials other =>
      simp only [State.answer, State.answerStore] at h
      split at h
      · split at h
        · cases h; exact .same rfl
        · cases h
      · cases h
    | createWebAuthnCredential c =>
      simp only [State.answer, State.answerStore, State.createWebAuthnCredential,
        Option.some.injEq] at h
      split at h
      · cases h; exact .same rfl
      · cases h; exact .same rfl
      · cases h; exact .same rfl
    | updateWebAuthnCredentialCounter realm id expectedCounter v =>
      simp only [State.answer, State.answerStore, State.updateCounter, Option.some.injEq] at h
      split at h
      · cases h; exact .same rfl
      · cases h; exact .same rfl
    | deleteWebAuthnCredential other id =>
      simp only [State.answer, State.answerStore, State.eraseCredential, Option.some.injEq] at h
      split at h
      · cases h; exact .same rfl
      · split at h
        · cases h; exact .same rfl
        · cases h; exact .same rfl
  | bumpSecurityVersion other =>
    simp only [State.answer] at h
    split at h
    · cases h; exact .same rfl
    · rename_i u hu
      cases h
      by_cases hkey : key = other
      · subst hkey
        exact .bumped hu (by simp [get?_setUser])
      · exact .same (by simp [get?_setUser, hkey])
  | restoreUser u =>
    cases h
    by_cases hkey : key = State.keyOf u
    · exact .restored hkey.symm (by simp [get?_setUser, hkey])
    · exact .same (by simp [get?_setUser, hkey])
  | deleteUser other =>
    simp only [State.answer, State.deleteUser, Option.some.injEq] at h
    split at h
    · cases h; exact .same rfl
    · rename_i u hu
      cases h
      by_cases hkey : key = other
      · subst hkey
        exact .deleted hu (s.users.get?_erase_self key)
      · exact .same (s.users.get?_erase_of_ne hkey)
  | createUser u =>
    simp only [State.answer] at h
    split at h
    · cases h
    · rename_i hfresh
      simp only [State.insertUser, Option.some.injEq] at h
      split at h
      · cases h; exact .same rfl
      · split at h
        · cases h; exact .same rfl
        · cases h
          by_cases hkey : key = State.keyOf u
          · exact .created (hkey ▸ hfresh) (by simp [get?_setUser, hkey])
          · exact .same (by simp [get?_setUser, hkey])
  | recreateUser u =>
    simp only [State.answer, State.insertUser, Option.some.injEq] at h
    split at h
    · cases h; exact .same rfl
    · rename_i habsent
      split at h
      · cases h; exact .same rfl
      · cases h
        by_cases hkey : key = State.keyOf u
        · refine .recreated hkey.symm ?_ (by simp [get?_setUser, hkey])
          simpa [hkey] using habsent
        · exact .same (by simp [get?_setUser, hkey])
  | findAdminGrant _ | restoreAdminGrant _ _ | revokeMemoryAccount _ =>
    cases h
    exact .same rfl

end AuthMe.DataLayer

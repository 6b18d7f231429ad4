import AuthMe.DataLayer.Tables

/-!
# Errors of the development data layer

What a call of `mutateAccountSecurity` or `deleteAccount` that rejects leaves behind. The row of
the user and its passkeys come back through the constructors that normalise their input, and
nothing else comes back, apart from the administrator grant of a user that was deleted: sessions of
the console and challenges that went with the user are gone, and so is what a callback has changed
beside the row and the passkeys (`error_atomicity`).
-/

namespace AuthMe.DataLayer.Tables

open Store

/-! ## What is the same -/

/-- Every table has the same rows. -/
structure Same (s s' : State) : Prop where
  users : ∀ k, s'.users.get? k = s.users.get? k
  adminGrants : ∀ k, s'.adminGrants.get? k = s.adminGrants.get? k
  adminSessions : ∀ k, s'.adminSessions.get? k = s.adminSessions.get? k
  webauthnCredentials : ∀ k, s'.webauthnCredentials.get? k = s.webauthnCredentials.get? k
  webauthnChallenges : ∀ k, s'.webauthnChallenges.get? k = s.webauthnChallenges.get? k
  records : s'.records = s.records

/-- A passkey, if it is not one of the account. -/
def foreign (key : UserKey) (c : Option Passkey) : Option Passkey := c.filter fun c => !c.belongs key

/-- Every table has the same rows, but for the row of the user and its passkeys. -/
structure OwnOnly (key : UserKey) (s s' : State) : Prop where
  users : ∀ k, k ≠ key → s'.users.get? k = s.users.get? k
  adminGrants : ∀ k, s'.adminGrants.get? k = s.adminGrants.get? k
  adminSessions : ∀ k, s'.adminSessions.get? k = s.adminSessions.get? k
  webauthnCredentials : ∀ k, foreign key (s'.webauthnCredentials.get? k) =
    foreign key (s.webauthnCredentials.get? k)
  webauthnChallenges : ∀ k, s'.webauthnChallenges.get? k = s.webauthnChallenges.get? k
  records : s'.records = s.records

/-- The constructors give the row of the user and its passkeys back as they are. -/
structure Normal (cfg : Config) (s : State) (key : UserKey) : Prop where
  user : ∀ u, s.users.get? key = some u → normalizeUser cfg u = u
  passkeys : ∀ k c, s.webauthnCredentials.get? k = some c → c.belongs key = true →
    normalizeWebAuthnCredential c = c

variable {cfg : Config} {s s' s'' : State} {key : UserKey}

namespace OwnOnly

theorem refl (key : UserKey) (s : State) : OwnOnly key s s :=
  ⟨fun _ _ => rfl, fun _ => rfl, fun _ => rfl, fun _ => rfl, fun _ => rfl, rfl⟩

theorem symm (h : OwnOnly key s s') : OwnOnly key s' s :=
  ⟨fun k hk => (h.users k hk).symm, fun k => (h.adminGrants k).symm,
    fun k => (h.adminSessions k).symm, fun k => (h.webauthnCredentials k).symm,
    fun k => (h.webauthnChallenges k).symm, h.records.symm⟩

theorem trans (h : OwnOnly key s s') (h' : OwnOnly key s' s'') : OwnOnly key s s'' :=
  ⟨fun k hk => (h'.users k hk).trans (h.users k hk),
    fun k => (h'.adminGrants k).trans (h.adminGrants k),
    fun k => (h'.adminSessions k).trans (h.adminSessions k),
    fun k => (h'.webauthnCredentials k).trans (h.webauthnCredentials k),
    fun k => (h'.webauthnChallenges k).trans (h.webauthnChallenges k),
    h'.records.trans h.records⟩

end OwnOnly

theorem Same.ownOnly (h : Same s s') (key : UserKey) : OwnOnly key s s' :=
  ⟨fun k _ => h.users k, h.adminGrants, h.adminSessions,
    fun k => congrArg (foreign key) (h.webauthnCredentials k), h.webauthnChallenges, h.records⟩

@[simp] theorem normalizeUser_key (u : Account) : (normalizeUser cfg u).key = u.key := rfl

@[simp] theorem normalizeWebAuthnCredential_key (c : Passkey) :
    (normalizeWebAuthnCredential c).key = c.key := rfl

@[simp] theorem normalizeWebAuthnCredential_belongs (c : Passkey) :
    (normalizeWebAuthnCredential c).belongs key = c.belongs key := rfl

theorem foreign_foreign (c : Option Passkey) : foreign key (foreign key c) = foreign key c := by
  cases c with
  | none => rfl
  | some c => cases h : c.belongs key <;> simp [foreign, Option.filter, h]

theorem foreign_of_belongs {c : Passkey} (h : c.belongs key = true) :
    foreign key (some c) = none := by simp [foreign, Option.filter, h]

theorem foreign_of_not {c : Passkey} (h : c.belongs key = false) :
    foreign key (some c) = some c := by simp [foreign, Option.filter, h]

/-! ## Deleting and recreating passkeys -/

/-- Another table of passkeys, and everything else as before. -/
def State.withPasskeys (s : State) (t : Table (String × String) Passkey Passkey.key) : State :=
  { s with webauthnCredentials := t }

theorem OwnOnly.withPasskeys {t : Table (String × String) Passkey Passkey.key}
    (h : ∀ k, foreign key (t.get? k) = foreign key (s.webauthnCredentials.get? k)) :
    OwnOnly key s (s.withPasskeys t) :=
  ⟨fun _ _ => rfl, fun _ => rfl, fun _ => rfl, h, fun _ => rfl, rfl⟩

theorem deleteWebAuthnCredential_eq (s : State) (key : UserKey) (id : String) :
    ∃ t, s.deleteWebAuthnCredential key id = s.withPasskeys t ∧
      ∀ k, t.get? k = if k = (key.1, id) then foreign key (s.webauthnCredentials.get? k)
        else s.webauthnCredentials.get? k := by
  unfold State.deleteWebAuthnCredential
  cases hget : s.webauthnCredentials.get? (key.1, id) with
  | none =>
    refine ⟨s.webauthnCredentials, rfl, ?_⟩
    intro k
    split
    · rename_i hk
      rw [hk, hget]
      rfl
    · rfl
  | some c =>
    have hkey : c.key = (key.1, id) := Table.keyOf_of_get? hget
    have hrealm : c.realm = key.1 := congrArg Prod.fst hkey
    dsimp only
    split
    · rename_i huser
      refine ⟨s.webauthnCredentials.erase (key.1, id), rfl, ?_⟩
      intro k
      rw [Table.get?_erase]
      split
      · rename_i hk
        rw [hk, hget, foreign_of_belongs]
        simp [Passkey.belongs, hrealm, huser]
      · rfl
    · rename_i huser
      refine ⟨s.webauthnCredentials, rfl, ?_⟩
      intro k
      split
      · rename_i hk
        rw [hk, hget, foreign_of_not]
        simp [Passkey.belongs, huser]
      · rfl

/-- After the passkeys of a list are deleted, what is left under their keys is not the account's. -/
theorem deleteAll_eq (s : State) (key : UserKey) (cs : List Passkey) :
    ∃ t, cs.foldl (fun s c => s.deleteWebAuthnCredential key c.id) s = s.withPasskeys t ∧
      ∀ k, t.get? k = if k ∈ cs.map (fun c => (key.1, c.id)) then
        foreign key (s.webauthnCredentials.get? k) else s.webauthnCredentials.get? k := by
  induction cs generalizing s with
  | nil => exact ⟨s.webauthnCredentials, rfl, by simp⟩
  | cons c cs ih =>
    obtain ⟨t, ht, hget⟩ := deleteWebAuthnCredential_eq s key c.id
    obtain ⟨t', ht', hget'⟩ := ih (s.withPasskeys t)
    rw [List.foldl_cons, ht]
    refine ⟨t', ht', ?_⟩
    intro k
    have hstep := hget k
    rw [hget' k]
    change (if k ∈ _ then foreign key (t.get? k) else t.get? k) = _
    rw [hstep, List.map_cons]
    by_cases hk : k = (key.1, c.id)
    · simp [hk, foreign_foreign]
    · simp [hk]

theorem mem_listWebAuthnCredentials {c : Passkey} :
    c ∈ s.listWebAuthnCredentials key ↔
      s.webauthnCredentials.get? c.key = some c ∧ c.belongs key = true := by
  rw [State.listWebAuthnCredentials, List.mem_insertionSort, List.mem_filter, Table.mem_rows_iff]

theorem nodup_listWebAuthnCredentials (s : State) (key : UserKey) :
    ((s.listWebAuthnCredentials key).map Passkey.key).Nodup := by
  rw [State.listWebAuthnCredentials]
  apply ((List.perm_insertionSort _ _).map _).nodup_iff.mpr
  exact (s.webauthnCredentials.nodup_rows_keys).sublist (List.filter_sublist.map _)

/-- The passkeys of the account are deleted, and the others stay. -/
theorem clear_eq (s : State) (key : UserKey) :
    ∃ t, (s.listWebAuthnCredentials key).foldl
        (fun s c => s.deleteWebAuthnCredential key c.id) s = s.withPasskeys t ∧
      ∀ k, t.get? k = foreign key (s.webauthnCredentials.get? k) := by
  obtain ⟨t, ht, hget⟩ := deleteAll_eq s key (s.listWebAuthnCredentials key)
  refine ⟨t, ht, ?_⟩
  intro k
  rw [hget k]
  split
  · rfl
  · rename_i hk
    cases hc : s.webauthnCredentials.get? k with
    | none => rfl
    | some c =>
      have hkey : c.key = k := Table.keyOf_of_get? hc
      rw [foreign_of_not]
      by_contra hbelongs
      rw [Bool.not_eq_false] at hbelongs
      have hrealm : c.realm = key.1 := by
        simp only [Passkey.belongs, Bool.and_eq_true, decide_eq_true_eq] at hbelongs
        exact hbelongs.1
      apply hk
      refine List.mem_map.mpr ⟨c, mem_listWebAuthnCredentials.mpr ⟨hkey ▸ hc, hbelongs⟩, ?_⟩
      rw [← hkey, ← hrealm]
      rfl

theorem createWebAuthnCredential_of_free {c : Passkey}
    (huser : (s.users.get? key).isSome = true) (hc : c.belongs key = true)
    (hfree : s.webauthnCredentials.get? c.key = none) :
    s.createWebAuthnCredential c =
      .ok (s.withPasskeys (s.webauthnCredentials.insert (normalizeWebAuthnCredential c))) := by
  have hkey : ((normalizeWebAuthnCredential c).realm, (normalizeWebAuthnCredential c).userId) =
      key := by
    simp only [Passkey.belongs, Bool.and_eq_true, decide_eq_true_eq] at hc
    exact Prod.ext hc.1 hc.2
  simp [State.createWebAuthnCredential, State.withPasskeys, hkey, Option.isNone_iff_eq_none,
    Option.ne_none_iff_isSome.mpr huser, hfree]

/-- Passkeys whose keys are free are recreated. -/
theorem recreate_eq {cs : List Passkey} (huser : (s.users.get? key).isSome = true)
    (hbelongs : ∀ c ∈ cs, c.belongs key = true)
    (hfree : ∀ c ∈ cs, s.webauthnCredentials.get? c.key = none) (hnodup : (cs.map Passkey.key).Nodup) :
    ∃ t, recreate s cs = (s.withPasskeys t, none) ∧
      (∀ c ∈ cs, t.get? c.key = some (normalizeWebAuthnCredential c)) ∧
      ∀ k, k ∉ cs.map Passkey.key → t.get? k = s.webauthnCredentials.get? k := by
  induction cs generalizing s with
  | nil => exact ⟨s.webauthnCredentials, rfl, by simp, fun _ _ => rfl⟩
  | cons c cs ih =>
    rw [List.map_cons, List.nodup_cons] at hnodup
    have hcreate := createWebAuthnCredential_of_free huser (hbelongs c List.mem_cons_self)
      (hfree c List.mem_cons_self)
    have hget : ∀ a, (s.webauthnCredentials.insert (normalizeWebAuthnCredential c)).get? a =
        if a = c.key then some (normalizeWebAuthnCredential c)
        else s.webauthnCredentials.get? a := s.webauthnCredentials.get?_insert _
    obtain ⟨t, ht, hnew, hold⟩ := ih (s := s.withPasskeys
        (s.webauthnCredentials.insert (normalizeWebAuthnCredential c))) huser
      (fun d hd => hbelongs d (List.mem_cons_of_mem _ hd))
      (by
        intro d hd
        have hne : d.key ≠ c.key := by
          intro heq
          exact hnodup.1 (heq ▸ List.mem_map_of_mem hd)
        change (s.webauthnCredentials.insert (normalizeWebAuthnCredential c)).get? d.key = none
        rw [hget, if_neg hne]
        exact hfree d (List.mem_cons_of_mem _ hd))
      hnodup.2
    refine ⟨t, ?_, ?_, ?_⟩
    · rw [recreate, hcreate]
      exact ht
    · intro d hd
      rcases List.mem_cons.mp hd with rfl | hd
      · rw [hold _ hnodup.1]
        change (s.webauthnCredentials.insert (normalizeWebAuthnCredential d)).get? d.key = _
        rw [hget, if_pos rfl]
      · exact hnew d hd
    · intro k hk
      rw [List.map_cons, List.mem_cons, not_or] at hk
      rw [hold k hk.2]
      change (s.webauthnCredentials.insert (normalizeWebAuthnCredential c)).get? k = _
      rw [hget, if_neg hk.1]

/-- Whether or not an exception stops it, recreating passkeys of the account changes nothing
else. -/
theorem recreate_ownOnly (s : State) (cs : List Passkey) (hbelongs : ∀ c ∈ cs, c.belongs key = true) :
    ∃ t, (recreate s cs).1 = s.withPasskeys t ∧
      ∀ k, foreign key (t.get? k) = foreign key (s.webauthnCredentials.get? k) := by
  induction cs generalizing s with
  | nil => exact ⟨s.webauthnCredentials, rfl, fun _ => rfl⟩
  | cons c cs ih =>
    have hrest : ∀ d ∈ cs, d.belongs key = true := fun d hd =>
      hbelongs d (List.mem_cons_of_mem _ hd)
    rw [recreate]
    split
    · exact ⟨s.webauthnCredentials, rfl, fun _ => rfl⟩
    · rename_i s₁ hcreate
      obtain ⟨t, ht, hforeign⟩ := ih s₁ hrest
      simp only [State.createWebAuthnCredential] at hcreate
      split at hcreate
      · cases hcreate
        exact ⟨t, ht, hforeign⟩
      · split at hcreate
        · cases hcreate
        · rename_i hfree
          cases hcreate
          refine ⟨t, ht, ?_⟩
          intro k
          rw [hforeign k]
          change foreign key ((s.webauthnCredentials.insert _).get? k) = _
          rw [Table.get?_insert]
          split
          · rename_i hk
            have hown : (normalizeWebAuthnCredential c).belongs key = true :=
              hbelongs c List.mem_cons_self
            rw [hk, foreign_of_belongs hown]
            have hnone : s.webauthnCredentials.get? (normalizeWebAuthnCredential c).key = none := by
              simpa using hfree
            rw [hnone]
            rfl
          · rfl

/-- The restore of passkeys changes nothing else. -/
theorem restore_ownOnly (s s₀ : State) (key : UserKey) :
    ∃ t, (restoreMemoryWebAuthnCredentials s key (s₀.listWebAuthnCredentials key)).1 =
        s.withPasskeys t ∧
      ∀ k, foreign key (t.get? k) = foreign key (s.webauthnCredentials.get? k) := by
  obtain ⟨t₁, hclear, hget⟩ := clear_eq s key
  obtain ⟨t₂, hrecreate, hforeign⟩ := recreate_ownOnly (s.withPasskeys t₁)
    (s₀.listWebAuthnCredentials key) fun c hc => (mem_listWebAuthnCredentials.mp hc).2
  refine ⟨t₂, ?_, ?_⟩
  · rw [restoreMemoryWebAuthnCredentials, hclear]
    exact hrecreate
  · intro k
    rw [hforeign k]
    change foreign key (t₁.get? k) = _
    rw [hget k, foreign_foreign]

/-- The passkeys are back, normalised, if the others are the same. -/
theorem restore_eq {s₀ : State} (huser : (s.users.get? key).isSome = true)
    (hforeign : ∀ k, foreign key (s.webauthnCredentials.get? k) =
      foreign key (s₀.webauthnCredentials.get? k)) :
    ∃ t, restoreMemoryWebAuthnCredentials s key (s₀.listWebAuthnCredentials key) =
        (s.withPasskeys t, none) ∧
      ∀ k, t.get? k = (s₀.webauthnCredentials.get? k).map fun c =>
        if c.belongs key then normalizeWebAuthnCredential c else c := by
  obtain ⟨t₁, hclear, hget⟩ := clear_eq s key
  have hleft : ∀ k, t₁.get? k = foreign key (s₀.webauthnCredentials.get? k) := fun k =>
    (hget k).trans (hforeign k)
  have hfree : ∀ c ∈ s₀.listWebAuthnCredentials key, t₁.get? c.key = none := by
    intro c hc
    obtain ⟨hc, hbelongs⟩ := mem_listWebAuthnCredentials.mp hc
    rw [hleft, hc, foreign_of_belongs hbelongs]
  obtain ⟨t₂, hrecreate, hnew, hold⟩ := recreate_eq (s := s.withPasskeys t₁) huser
    (fun c hc => (mem_listWebAuthnCredentials.mp hc).2) hfree
    (nodup_listWebAuthnCredentials s₀ key)
  refine ⟨t₂, ?_, ?_⟩
  · rw [restoreMemoryWebAuthnCredentials, hclear]
    exact hrecreate
  · intro k
    have hold' : k ∉ (s₀.listWebAuthnCredentials key).map Passkey.key →
        t₂.get? k = foreign key (s₀.webauthnCredentials.get? k) := fun hk =>
      (hold k hk).trans (hleft k)
    cases hc : s₀.webauthnCredentials.get? k with
    | none =>
      rw [hold', hc]
      · rfl
      · intro hk
        obtain ⟨c, hmem, rfl⟩ := List.mem_map.mp hk
        rw [(mem_listWebAuthnCredentials.mp hmem).1] at hc
        cases hc
    | some c =>
      have hkey : c.key = k := Table.keyOf_of_get? hc
      rw [Option.map_some]
      by_cases hbelongs : c.belongs key = true
      · rw [if_pos hbelongs, ← hkey]
        exact hnew c (mem_listWebAuthnCredentials.mpr ⟨hkey ▸ hc, hbelongs⟩)
      · rw [if_neg hbelongs, hold', hc, foreign_of_not (by simpa using hbelongs)]
        intro hk
        obtain ⟨d, hmem, hd⟩ := List.mem_map.mp hk
        obtain ⟨hget', hdbelongs⟩ := mem_listWebAuthnCredentials.mp hmem
        rw [hd, hc] at hget'
        cases hget'
        exact hbelongs hdbelongs

/-! ## `mutateAccountSecurity` -/

theorem ownOnly_restoreUser {u : Account} (hu : u.key = key) :
    OwnOnly key s (s.restoreUser cfg u) := by
  refine ⟨?_, fun _ => rfl, fun _ => rfl, fun _ => rfl, fun _ => rfl, rfl⟩
  intro k hk
  simp only [State.restoreUser]
  rw [Table.get?_insert, if_neg (by rw [normalizeUser_key, hu]; exact hk)]

theorem get?_restoreUser {u : Account} (hu : u.key = key) :
    (s.restoreUser cfg u).users.get? key = some (normalizeUser cfg u) := by
  simp only [State.restoreUser]
  rw [Table.get?_insert, if_pos (by rw [normalizeUser_key, hu])]

/-- The passkeys that the restore gives back are those that were there, exactly when the
constructor leaves them as they are. -/
theorem passkeys_restored {t : Table (String × String) Passkey Passkey.key}
    (ht : ∀ k, t.get? k = (s.webauthnCredentials.get? k).map fun c =>
      if c.belongs key then normalizeWebAuthnCredential c else c) :
    (∀ k, t.get? k = s.webauthnCredentials.get? k) ↔
      ∀ k c, s.webauthnCredentials.get? k = some c → c.belongs key = true →
        normalizeWebAuthnCredential c = c := by
  constructor
  · intro h k c hc hbelongs
    have heq := ht k
    rw [h k, hc, Option.map_some, if_pos hbelongs] at heq
    exact (Option.some.inj heq).symm
  · intro h k
    rw [ht k]
    cases hc : s.webauthnCredentials.get? k with
    | none => rfl
    | some c =>
      rw [Option.map_some]
      split
      · rename_i hbelongs
        rw [h k c hc hbelongs]
      · rfl

/-- A callback that throws: everything is the same if and only if the callback has changed nothing
but the row of the user and its passkeys, and these are such as the constructors give them back. -/
theorem mutateAccountSecurity_same {now : Instant} {mutate : Callback} {message : String}
    (h : mutateAccountSecurity cfg now s key mutate = (s', .rejected message)) :
    Same s s' ↔ Normal cfg s key ∧ OwnOnly key s (s.calls cfg mutate.calls) := by
  unfold mutateAccountSecurity at h
  split at h
  · cases h
  · rename_i current hcurrent
    have hkey : current.key = key := Table.keyOf_of_get? hcurrent
    dsimp only at h
    generalize s.calls cfg mutate.calls = mutated at h ⊢
    split at h
    · cases h
      have hrestored : OwnOnly key mutated (mutated.restoreUser cfg current) :=
        ownOnly_restoreUser hkey
      have huser : (mutated.restoreUser cfg current).users.get? key =
          some (normalizeUser cfg current) := get?_restoreUser hkey
      obtain ⟨t, ht, hforeign⟩ := restore_ownOnly (mutated.restoreUser cfg current) s key
      have hother : OwnOnly key mutated ((mutated.restoreUser cfg current).withPasskeys t) :=
        hrestored.trans (.withPasskeys hforeign)
      have hback : OwnOnly key s mutated →
          ∀ k, t.get? k = (s.webauthnCredentials.get? k).map fun c =>
            if c.belongs key then normalizeWebAuthnCredential c else c := by
        intro hown
        have hsome : ((mutated.restoreUser cfg current).users.get? key).isSome = true := by
          rw [huser]
          rfl
        obtain ⟨t', ht', hget⟩ := restore_eq hsome (hown.trans hrestored).webauthnCredentials
        rw [ht'] at ht
        have heq : t' = t := congrArg State.webauthnCredentials ht
        exact heq ▸ hget
      rw [ht]
      constructor
      · intro hsame
        have hown : OwnOnly key s mutated := (hsame.ownOnly key).trans hother.symm
        refine ⟨⟨?_, (passkeys_restored (hback hown)).mp hsame.webauthnCredentials⟩, hown⟩
        intro u hu
        rw [hcurrent] at hu
        cases hu
        have heq := hsame.users key
        rw [hcurrent] at heq
        exact Option.some.inj (huser.symm.trans heq)
      · rintro ⟨hnormal, hown⟩
        have hall := hown.trans hother
        refine ⟨?_, hall.adminGrants, hall.adminSessions,
          (passkeys_restored (hback hown)).mpr hnormal.passkeys, hall.webauthnChallenges,
          hall.records⟩
        intro k
        by_cases hk : k = key
        · rw [hk, hcurrent]
          exact huser.trans (congrArg some (hnormal.user current hcurrent))
        · exact hall.users k hk
    · cases h
    · cases h

/-! ## `deleteAccount` -/

/-- What went with the user comes back: nobody else logs in with its names, its grant is such as
the constructor gives it back, and it has no session of the console and no challenge. -/
structure Recreatable (cfg : Config) (s : State) (key : UserKey) : Prop where
  login : ∀ u, s.users.get? key = some u →
    loginTaken cfg { s with users := s.users.erase key } (normalizeUser cfg u) = false
  grant : ∀ g, s.adminGrants.get? key = some g → normalizeAdminGrant g = .ok g
  sessions : ∀ k x, s.adminSessions.get? k = some x → sessionBelongs x key = false
  challenges : ∀ k c, s.webauthnChallenges.get? k = some c → c.belongs key = false

/-- A filter changes no row if and only if it keeps every row. -/
theorem filter_same {κ ν : Type} [DecidableEq κ] {keyOf : ν → κ} (t : Table κ ν keyOf)
    (p : ν → Bool) : (∀ k, (t.filter fun v => !p v).get? k = t.get? k) ↔
      ∀ k v, t.get? k = some v → p v = false := by
  constructor
  · intro h k v hv
    have hk := h k
    rw [Table.get?_filter, hv, Option.filter_eq_some_iff] at hk
    simpa using hk.2
  · intro h k
    rw [Table.get?_filter]
    cases hv : t.get? k with
    | none => rfl
    | some v => simp [Option.filter, h k v hv]

/-- The rows of `deleteUser`. -/
theorem deleteUser_eq {u : Account} (h : s.deleteUser key = some (u, s')) :
    s.users.get? key = some u ∧ s' = { s with
      users := s.users.erase key
      adminGrants := s.adminGrants.erase key
      adminSessions := s.adminSessions.filter fun x => !sessionBelongs x key
      webauthnCredentials := s.webauthnCredentials.filter fun c => !c.belongs key
      webauthnChallenges := s.webauthnChallenges.filter fun c => !c.belongs key } := by
  obtain ⟨u', hu, heq⟩ := Option.map_eq_some_iff.mp h
  cases heq
  exact ⟨hu, rfl⟩

theorem normalizeAdminGrant_key {g g' : Grant} (h : normalizeAdminGrant g = .ok g') :
    g'.key = g.key := by
  unfold normalizeAdminGrant at h
  split at h
  · cases h
  · split at h
    · cases h
      rfl
    · split at h <;> cases h

/-- The grant that was deleted is written again, if there was one. -/
theorem restoreGrant_eq {g : Option Grant} {s₁ s₂ : State} (hg : ∀ x, g = some x → x.key = key)
    (h : g.elim (.ok s₁) s₁.setAdminGrant = .ok s₂) :
    ∃ t, s₂ = { s₁ with adminGrants := t } ∧
      (∀ k, k ≠ key → t.get? k = s₁.adminGrants.get? k) ∧
      (g = none → t.get? key = s₁.adminGrants.get? key) ∧
      ∀ x, g = some x → ∃ x', normalizeAdminGrant x = .ok x' ∧ t.get? key = some x' := by
  cases g with
  | none =>
    cases h
    refine ⟨s₁.adminGrants, rfl, fun _ _ => rfl, fun _ => rfl, ?_⟩
    intro x hx
    cases hx
  | some x =>
    simp only [Option.elim_some, State.setAdminGrant] at h
    split at h
    · cases h
    · rename_i x' hx
      cases h
      have hkey : x'.key = key := (normalizeAdminGrant_key hx).trans (hg x rfl)
      refine ⟨s₁.adminGrants.insert x', rfl, ?_, ?_, ?_⟩
      · intro k hk
        rw [Table.get?_insert, hkey, if_neg hk]
      · intro hnone
        cases hnone
      · intro y hy
        cases hy
        exact ⟨x', hx, by rw [Table.get?_insert, hkey, if_pos rfl]⟩

theorem createUser_ok {u : Account} {s₁ : State} (h : s.createUser cfg u = .ok s₁) :
    s₁ = { s with users := s.users.insert (normalizeUser cfg u) } ∧
      loginTaken cfg s (normalizeUser cfg u) = false := by
  simp only [State.createUser] at h
  split at h
  · cases h
  · split at h
    · cases h
    · rename_i hlogin
      cases h
      exact ⟨rfl, by simpa using hlogin⟩

theorem createUser_error {u : Account} {message : String} (h : s.createUser cfg u = .error message)
    (hfree : s.users.get? u.key = none) : loginTaken cfg s (normalizeUser cfg u) = true := by
  simp only [State.createUser, normalizeUser_key, hfree, Option.isSome_none] at h
  split at h
  · rename_i hfalse
    cases hfalse
  · split at h
    · assumption
    · cases h

/-- The rows after a user was deleted and created again, with its grant and its passkeys. -/
structure Recreated (cfg : Config) (s : State) (key : UserKey) (u : Account) (r : State) :
    Prop where
  user : r.users.get? key = some (normalizeUser cfg u)
  users : ∀ k, k ≠ key → r.users.get? k = s.users.get? k
  grant : ∀ g, s.adminGrants.get? key = some g →
    ∃ g', normalizeAdminGrant g = .ok g' ∧ r.adminGrants.get? key = some g'
  noGrant : s.adminGrants.get? key = none → r.adminGrants.get? key = none
  adminGrants : ∀ k, k ≠ key → r.adminGrants.get? k = s.adminGrants.get? k
  adminSessions : r.adminSessions = s.adminSessions.filter fun x => !sessionBelongs x key
  webauthnCredentials : ∀ k, r.webauthnCredentials.get? k =
    (s.webauthnCredentials.get? k).map fun c =>
      if c.belongs key then normalizeWebAuthnCredential c else c
  webauthnChallenges : r.webauthnChallenges =
    s.webauthnChallenges.filter fun c => !c.belongs key
  records : r.records = s.records

theorem Recreated.normal {u : Account} (h : Recreated cfg s key u s')
    (hu : s.users.get? key = some u) (hsame : Same s s') : Normal cfg s key where
  user := by
    intro u' hu'
    rw [hu] at hu'
    cases hu'
    have heq := hsame.users key
    rw [h.user, hu] at heq
    exact Option.some.inj heq
  passkeys := (passkeys_restored h.webauthnCredentials).mp hsame.webauthnCredentials

theorem Recreated.recreatable {u : Account} (h : Recreated cfg s key u s')
    (hu : s.users.get? key = some u) (hsame : Same s s')
    (hlogin : loginTaken cfg { s with users := s.users.erase key } (normalizeUser cfg u) = false) :
    Recreatable cfg s key where
  login := by
    intro u' hu'
    rw [hu] at hu'
    cases hu'
    exact hlogin
  grant := by
    intro g hg
    obtain ⟨g', hg', hget⟩ := h.grant g hg
    rw [hsame.adminGrants key, hg] at hget
    cases hget
    exact hg'
  sessions := by
    have hkept := hsame.adminSessions
    rw [h.adminSessions] at hkept
    exact (filter_same _ fun x => sessionBelongs x key).mp hkept
  challenges := by
    have hkept := hsame.webauthnChallenges
    rw [h.webauthnChallenges] at hkept
    exact (filter_same _ fun c : Ceremony => c.belongs key).mp hkept

theorem Recreated.same {u : Account} (h : Recreated cfg s key u s')
    (hu : s.users.get? key = some u) (hnormal : Normal cfg s key)
    (hrecreatable : Recreatable cfg s key) : Same s s' where
  users := by
    intro k
    by_cases hk : k = key
    · rw [hk, h.user, hu, hnormal.user u hu]
    · exact h.users k hk
  adminGrants := by
    intro k
    by_cases hk : k = key
    · subst hk
      cases hg : s.adminGrants.get? k with
      | none => exact h.noGrant hg
      | some g =>
        obtain ⟨g', hg', hget⟩ := h.grant g hg
        rw [hrecreatable.grant g hg] at hg'
        cases hg'
        exact hget
    · exact h.adminGrants k hk
  adminSessions := by
    rw [h.adminSessions]
    exact (filter_same _ fun x => sessionBelongs x key).mpr hrecreatable.sessions
  webauthnCredentials := (passkeys_restored h.webauthnCredentials).mpr hnormal.passkeys
  webauthnChallenges := by
    rw [h.webauthnChallenges]
    exact (filter_same _ fun c : Ceremony => c.belongs key).mpr hrecreatable.challenges
  records := h.records

/-- The store after `deleteUser` and the `catch`, against the store before. -/
theorem undelete_same {deleted : State} {user : Account} {message : String}
    (hdelete : s.deleteUser key = some (user, deleted)) :
    Same s (undelete cfg deleted key user (s.adminGrants.get? key) (s.listWebAuthnCredentials key)
      message).1 ↔ Normal cfg s key ∧ Recreatable cfg s key := by
  obtain ⟨huser, hdeleted⟩ := deleteUser_eq hdelete
  have hkey : user.key = key := Table.keyOf_of_get? huser
  have husers : deleted.users = s.users.erase key := by rw [hdeleted]
  have hlogin : ∀ u, loginTaken cfg deleted u =
      loginTaken cfg { s with users := s.users.erase key } u := by
    intro u
    simp only [loginTaken, husers]
  have hfree : deleted.users.get? user.key = none := by
    rw [husers, hkey, Table.get?_erase, if_pos rfl]
  have hgone : ∀ k, deleted.adminGrants.get? k =
      if k = key then none else s.adminGrants.get? k := by
    intro k
    rw [hdeleted]
    exact Table.get?_erase _ _ _
  unfold undelete
  split
  · -- somebody else logs in with the names of the user, which stays deleted
    rename_i other hcreate
    constructor
    · intro hsame
      have heq := hsame.users key
      rw [huser, ← hkey] at heq
      exact absurd (hfree.symm.trans heq) (by simp)
    · rintro ⟨-, hrecreatable⟩
      have htaken := createUser_error hcreate hfree
      rw [hlogin, hrecreatable.login user huser] at htaken
      cases htaken
  · rename_i s₁ hcreate
    obtain ⟨hs₁, hfresh⟩ := createUser_ok hcreate
    have hgrants₁ : s₁.adminGrants = deleted.adminGrants := by rw [hs₁]
    split
    · -- the grant is refused, and stays deleted
      rename_i other hgrant
      cases hg : s.adminGrants.get? key with
      | none =>
        rw [hg] at hgrant
        cases hgrant
      | some g =>
        constructor
        · intro hsame
          have heq := hsame.adminGrants key
          rw [hgrants₁, hgone, if_pos rfl, hg] at heq
          cases heq
        · rintro ⟨-, hrecreatable⟩
          rw [hg] at hgrant
          simp only [Option.elim_some, State.setAdminGrant, hrecreatable.grant g hg] at hgrant
          cases hgrant
    · rename_i s₂ hgrant
      obtain ⟨t, hs₂, hother, hnone, hsome⟩ := restoreGrant_eq
        (fun x hx => Table.keyOf_of_get? hx) hgrant
      have husers₂ : ∀ k, s₂.users.get? k =
          if k = key then some (normalizeUser cfg user) else s.users.get? k := by
        intro k
        simp only [hs₂, hs₁, husers, Table.get?_insert, Table.get?_erase, normalizeUser_key, hkey]
        split <;> rfl
      have hforeign : ∀ k, foreign key (s₂.webauthnCredentials.get? k) =
          foreign key (s.webauthnCredentials.get? k) := by
        intro k
        simp only [hs₂, hs₁, hdeleted, Table.get?_filter]
        exact foreign_foreign _
      obtain ⟨t', hrestore, hpasskeys⟩ := restore_eq (by rw [husers₂, if_pos rfl]; rfl) hforeign
      have hback : Recreated cfg s key user (s₂.withPasskeys t') := by
        refine ⟨(husers₂ key).trans (if_pos rfl), fun k hk => (husers₂ k).trans (if_neg hk), ?_, ?_,
          ?_, ?_, hpasskeys, ?_, ?_⟩
        · intro g hg
          obtain ⟨g', hg', hget⟩ := hsome g hg
          exact ⟨g', hg', by rw [← hget, hs₂]; rfl⟩
        · intro hg
          have hkept := hnone hg
          rw [hgrants₁, hgone, if_pos rfl] at hkept
          rw [← hkept, hs₂]
          rfl
        · intro k hk
          have hkept := hother k hk
          rw [hgrants₁, hgone, if_neg hk] at hkept
          rw [← hkept, hs₂]
          rfl
        · rw [State.withPasskeys, hs₂, hs₁, hdeleted]
        · rw [State.withPasskeys, hs₂, hs₁, hdeleted]
        · rw [State.withPasskeys, hs₂, hs₁, hdeleted]
      rw [hrestore]
      rw [hlogin] at hfresh
      constructor
      · intro hsame
        exact ⟨hback.normal huser hsame, hback.recreatable huser hsame hfresh⟩
      · rintro ⟨hnormal, hrecreatable⟩
        exact hback.same huser hnormal hrecreatable

theorem deleteAccount_same {audit : Option String} {message : String}
    (h : deleteAccount cfg s key audit = (s', .rejected message)) :
    Same s s' ↔ Normal cfg s key ∧ Recreatable cfg s key := by
  unfold deleteAccount at h
  split at h
  · cases h
  · rename_i user deleted hdelete
    split at h
    · cases h
      exact undelete_same hdelete
    · cases h

/-- **What a call that rejects leaves.** After a callback that throws, every table has the rows of
before if and only if the callback has changed nothing but the row of the user and its passkeys and
the constructors give these back as they are; after an audit event that cannot be written, if and
only if they do and the deletion took nothing along that `deleteAccount` does not restore. -/
theorem error_atomicity (cfg : Config) (s : State) (key : UserKey) :
    (∀ now mutate s' message,
      mutateAccountSecurity cfg now s key mutate = (s', .rejected message) →
        (Same s s' ↔ Normal cfg s key ∧ OwnOnly key s (s.calls cfg mutate.calls))) ∧
    ∀ audit s' message, deleteAccount cfg s key audit = (s', .rejected message) →
      (Same s s' ↔ Normal cfg s key ∧ Recreatable cfg s key) :=
  ⟨fun _ _ _ _ h => mutateAccountSecurity_same h, fun _ _ _ h => deleteAccount_same h⟩

/-! ### A user of the console -/

def asciiConfig : Config := ⟨fun text => String.ofList (text.toList.map asciiLower)⟩

def alice : Account :=
  { realm := "master"
    id := "6f0d4f53-3c85-4f0c-8a27-2f6b8f0a5d11"
    username := "alice"
    email := "alice@example.test"
    name := "alice"
    passwordHash := "hash"
    createdAt := 2000
    updatedAt := 2000 }

/-- A store with one user. -/
def withAlice : State := { State.empty with users := Table.empty.insert alice }

def aliceSession : AdminSession :=
  { idDigest := "AAAAAAAAAAAAAAAAAAAAAAAAAAAAAAAAAAAAAAAAAAA"
    realm := "master"
    userId := alice.id
    grantVersion := 1
    securityVersion := 0
    createdAt := 2000
    lastSeenAt := 2000
    idleExpiresAt := 3000
    expiresAt := 4000 }

def signInTime : Instant := ⟨2500, by decide⟩

/-- The user is an administrator and has signed in to the console. -/
def signedIn : State :=
  withAlice.calls asciiConfig
    [(signInTime, .upsertAdminGrant alice.key ["*"] true),
      (signInTime, .createAdminSession aliceSession)]

/-- A change of the mail address whose audit event cannot be written. -/
def readdress : Callback :=
  ⟨[(signInTime, .row alice.key (.updateUser { email := some "after@example.test" }))],
    .threw "audit"⟩

def alicePasskey : Passkey :=
  { realm := "master"
    userId := alice.id
    id := "passkey"
    userHandle := "handle"
    publicKey := "key"
    counter := ⟨4, by decide⟩
    transports := ["internal"]
    aaguid := ""
    name := "Laptop"
    createdAt := 2000
    updatedAt := 2000
    lastUsedAt := none }

/-- She has a grant and a passkey. -/
def enrolled : State :=
  withAlice.calls asciiConfig
    [(signInTime, .upsertAdminGrant alice.key ["users.read"] true),
      (signInTime, .createWebAuthnCredential alicePasskey)]

/-- And a session of the console. -/
def atWork : State := enrolled.calls asciiConfig [(signInTime, .createAdminSession aliceSession)]

theorem normal_of_alice {s : State} (huser : s.users.get? alice.key = some alice)
    (hpasskeys : s.webauthnCredentials = Table.empty.insert alicePasskey) :
    Normal asciiConfig s alice.key where
  user := by
    intro u hu
    rw [huser] at hu
    cases hu
    rfl
  passkeys := by
    intro k c hc _
    rw [hpasskeys, Table.get?_insert] at hc
    split at hc <;> cases hc
    rfl

theorem recreatable_enrolled : Recreatable asciiConfig enrolled alice.key where
  login := by
    intro u hu
    have hget : enrolled.users.get? alice.key = some alice := rfl
    rw [hget] at hu
    cases hu
    rfl
  grant := by
    intro g hg
    have hget : enrolled.adminGrants.get? alice.key =
        some ⟨⟨["users.read"], true, 1⟩, "master", alice.id, 2500, 2500⟩ := rfl
    rw [hget] at hg
    cases hg
    rfl
  sessions := by
    intro k x hx
    cases hx
  challenges := by
    intro k c hc
    cases hc

/-- A user with a grant, a passkey and a session is back after a change of its address, and one with a
grant and a passkey after its deletion. -/
theorem error_atomicity_withAlice :
    Same atWork (mutateAccountSecurity asciiConfig signInTime atWork alice.key readdress).1 ∧
    Same enrolled (deleteAccount asciiConfig enrolled alice.key (some "audit")).1 := by
  constructor
  · refine ((error_atomicity asciiConfig atWork alice.key).1 signInTime readdress _ "audit" rfl).mpr
      ⟨normal_of_alice rfl rfl, ?_⟩
    refine ⟨?_, fun _ => rfl, fun _ => rfl, fun _ => rfl, fun _ => rfl, rfl⟩
    intro k hk
    have hother : ∀ a : Account, a.key = alice.key → (atWork.users.insert a).get? k =
        atWork.users.get? k := by
      intro a ha
      rw [Table.get?_insert, ha, if_neg hk]
    exact hother _ rfl
  · exact ((error_atomicity asciiConfig enrolled alice.key).2 (some "audit") _ "audit" rfl).mpr
      ⟨normal_of_alice rfl rfl, recreatable_enrolled⟩

/-- The session of an administrator whose deletion could not be audited is gone. -/
theorem deleteAccount_loses_session : ¬ ∀ (s : State) (key : UserKey) (audit : Option String)
    (s' : State) (message : String),
      deleteAccount asciiConfig s key audit = (s', .rejected message) → Same s s' := by
  intro h
  have hsame := h signedIn alice.key (some "audit") _ "audit" rfl
  have hkept := hsame.adminSessions aliceSession.idDigest
  have hbefore : signedIn.adminSessions.get? aliceSession.idDigest = some aliceSession := rfl
  rw [hbefore] at hkept
  cases hkept

/-! ## Callbacks that are taken back -/

/-- The methods that write the row of the user and its passkeys, and those that write nothing. -/
def Call.own (key : UserKey) : Call → Bool
  | .row k _ | .deleteWebAuthnCredential k _ => k = key
  | .createUser a | .restoreUser a => a.key = key
  | .createWebAuthnCredential c => c.belongs key
  | .read => true
  | _ => false

theorem factor_key {now : Instant} {u u' : User} {call : Factor.Call}
    (h : call.apply .memory now u = some u') : u'.realm = u.realm ∧ u'.id = u.id := by
  cases call with
  | beginTotpEnrollment _ | configureTotp _ =>
    cases h
    exact ⟨rfl, rfl⟩
  | confirmTotpEnrollment e =>
    simp only [Factor.Call.apply, User.confirmTotpEnrollment] at h
    split at h
    · cases h
      exact ⟨rfl, rfl⟩
    · cases h
  | consumeTotpStep step =>
    simp only [Factor.Call.apply, User.acceptTotpStep] at h
    split at h
    · unfold User.consumeTotpStep at h
      split at h
      · cases h
        exact ⟨rfl, rfl⟩
      · split at h
        · cases h
          exact ⟨rfl, rfl⟩
        · cases h
    · cases h
  | consumeRecoveryCode digest =>
    simp only [Factor.Call.apply, User.consumeRecoveryCode] at h
    split at h
    · cases h
      exact ⟨rfl, rfl⟩
    · cases h

/-- No method moves a row to another key. -/
theorem RowCall.apply_key {now : Instant} {a a' : Account} {call : RowCall}
    (h : call.apply cfg now s key a = some a') : a'.key = a.key := by
  cases call with
  | updateUser c =>
    simp only [RowCall.apply] at h
    split at h
    · cases h
    · cases h
      rfl
  | rehashPasswordIfCurrent expectedHash passwordHash =>
    obtain ⟨u, hu, rfl⟩ := Option.map_eq_some_iff.mp h
    unfold User.rehashPasswordIfCurrent at hu
    split at hu
    · cases hu
      rfl
    · cases hu
  | recordLoginFailure =>
    simp only [RowCall.apply] at h
    split at h
    · cases h
    · rename_i hlocked
      cases h
      simp only [Account.key, User.recordLoginFailure, if_neg hlocked]
  | recordLoginSuccess | unlockUser | bumpSecurityVersion =>
    cases h
    rfl
  | factor call =>
    obtain ⟨u, hu, rfl⟩ := Option.map_eq_some_iff.mp h
    exact Prod.ext (factor_key hu).1 (factor_key hu).2

theorem OwnOnly.insertUser {a : Account} (ha : a.key = key) :
    OwnOnly key s { s with users := s.users.insert a } := by
  refine ⟨?_, fun _ => rfl, fun _ => rfl, fun _ => rfl, fun _ => rfl, rfl⟩
  intro k hk
  dsimp only
  rw [Table.get?_insert, ha, if_neg hk]

theorem OwnOnly.call {now : Instant} {c : Call} (hc : c.own key = true)
    (h : s.call cfg now c = .ok s') : OwnOnly key s s' := by
  cases c with
  | row k call =>
    obtain rfl : k = key := of_decide_eq_true hc
    cases h
    unfold State.row
    split
    · exact .refl k s
    · rename_i a ha
      obtain ⟨a₀, ha₀, happly⟩ := Option.bind_eq_some_iff.mp ha
      exact .insertUser ((RowCall.apply_key happly).trans (Table.keyOf_of_get? ha₀))
  | deleteWebAuthnCredential k credentialId =>
    obtain rfl : k = key := of_decide_eq_true hc
    cases h
    obtain ⟨t, ht, hget⟩ := deleteWebAuthnCredential_eq s k credentialId
    rw [ht]
    refine .withPasskeys fun a => ?_
    rw [hget a]
    split
    · exact foreign_foreign _
    · rfl
  | createUser a =>
    have ha : a.key = key := of_decide_eq_true hc
    rw [(createUser_ok h).1]
    exact .insertUser ((normalizeUser_key a).trans ha)
  | restoreUser a =>
    have ha : a.key = key := of_decide_eq_true hc
    cases h
    exact ownOnly_restoreUser ha
  | createWebAuthnCredential c =>
    obtain ⟨t, ht, hforeign⟩ := recreate_ownOnly s [c]
      fun d hd => (List.mem_singleton.mp hd) ▸ hc
    have hs' : s.createWebAuthnCredential c = .ok s' := h
    simp only [recreate, hs'] at ht
    rw [ht]
    exact .withPasskeys hforeign
  | read =>
    cases h
    exact .refl key s
  | _ => cases hc

theorem OwnOnly.calls {cs : List (Instant × Call)} (h : ∀ c ∈ cs, c.2.own key = true) :
    OwnOnly key s (s.calls cfg cs) := by
  induction cs generalizing s with
  | nil => exact .refl key s
  | cons c cs ih =>
    have hrest : ∀ d ∈ cs, d.2.own key = true := fun d hd => h d (List.mem_cons_of_mem _ hd)
    rw [State.calls]
    split
    · exact ih hrest
    · rename_i s₁ hcall
      exact (OwnOnly.call (h c List.mem_cons_self) hcall).trans (ih hrest)

/-- What the console does in its callbacks is taken back. -/
theorem mutateAccountSecurity_atomic {now : Instant} {mutate : Callback} {message : String}
    (hnormal : Normal cfg s key) (hown : ∀ c ∈ mutate.calls, c.2.own key = true)
    (h : mutateAccountSecurity cfg now s key mutate = (s', .rejected message)) : Same s s' :=
  (mutateAccountSecurity_same h).mpr ⟨hnormal, .calls hown⟩

end AuthMe.DataLayer.Tables

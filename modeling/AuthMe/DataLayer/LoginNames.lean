import AuthMe.DataLayer.Tables

/-!
# Login names in the development store

A user logs in with the name or the e-mail address, and no string leads to two users of a realm.
`MemoryIdentityStore` (`src/src/repositories/identity-store.js`) keeps it so: `createUser` compares both
texts of the new user with both texts of every other one, and `updateUser` does it for a new address.

The map is keyed by `${realm}:${id}`. The name of a realm has no colon, so the text is read as a pair.
-/

namespace AuthMe.DataLayer.Tables

open Store

variable {cfg : Config} {s s' : State} {now : Instant}

/-- The texts that lead to the user. -/
def Account.logins (cfg : Config) (a : Account) : List String := [cfg.lowerCase a.username, a.email]

namespace State

/-- The first user of the realm with the name or the address. -/
def findUserByLogin (cfg : Config) (s : State) (realm login : String) : Option Account :=
  let normalized := cfg.lowerCase (Text.trim login)
  s.users.rows.find? fun u =>
    u.realm = realm && (cfg.lowerCase u.username = normalized || u.email = normalized)

end State

/-- No text leads to two users of a realm. -/
structure LoginNames (cfg : Config) (s : State) : Prop where
  apart : ∀ u ∈ s.users.rows, ∀ v ∈ s.users.rows, u.realm = v.realm → u.id ≠ v.id →
    ∀ login ∈ u.logins cfg, login ∉ v.logins cfg
  /-- The addresses are in lower case. -/
  lower : ∀ u ∈ s.users.rows, ∃ text, u.email = cfg.lowerCase text

/-- The calls that set the name or the address of a user, and `deleteUser`. -/
def Call.names : Call → Bool
  | .createUser _ | .row _ (.updateUser _) | .deleteUser _ => true
  | _ => false

/-- The call throws, or there is no such user. -/
def Call.fails (cfg : Config) (s : State) : Call → Bool
  | .createUser a => (s.users.get? a.key).isSome || loginTaken cfg s (normalizeUser cfg a)
  | .row key (.updateUser c) => (s.users.get? key).isNone || emailTaken cfg s key c
  | .deleteUser key => (s.users.get? key).isNone
  | _ => false

theorem rows_empty : State.empty.users.rows = [] := rfl

theorem loginNames_empty : LoginNames cfg .empty := by
  constructor <;> intro u hu <;> simp [rows_empty] at hu

theorem mem_users {u : Account} : u ∈ s.users.rows ↔ s.users.get? u.key = some u := Table.mem_rows_iff

theorem loginTaken_eq_false {a : Account} (h : loginTaken cfg s a = false) {u : Account}
    (hu : u ∈ s.users.rows) (hrealm : u.realm = a.realm) :
    ∀ login ∈ u.logins cfg, login ∉ a.logins cfg := by
  intro login hlogin hmem
  have hu' := List.any_eq_false.mp h u hu
  simp only [hrealm, decide_true, Bool.true_and] at hu'
  refine hu' (List.any_eq_true.mpr ⟨login, hlogin, ?_⟩)
  simpa [Account.logins] using hmem

theorem emailTaken_eq_false {key : UserKey} {c : Change} (h : emailTaken cfg s key c = false)
    {email : String} (hemail : c.email = some email) {u : Account} (hu : u ∈ s.users.rows)
    (hrealm : u.realm = key.1) (hid : u.id ≠ key.2) :
    cfg.lowerCase (Text.trim email) ∉ u.logins cfg := by
  intro hmem
  rw [emailTaken, hemail] at h
  have hu' := List.any_eq_false.mp h u hu
  simp only [Account.logins, List.mem_cons, List.not_mem_nil, or_false] at hmem
  simp only [hrealm, decide_true, Bool.true_and, hid, ne_eq, not_false_eq_true, Bool.or_eq_true,
    decide_eq_true_eq, not_or] at hu'
  rcases hmem with hmem | hmem
  · exact hu'.2 hmem.symm
  · exact hu'.1 hmem.symm

/-- A row is written whose texts no other user of the realm has. -/
theorem LoginNames.insert (h : LoginNames cfg s) {a : Account}
    (hapart : ∀ u ∈ s.users.rows, u.realm = a.realm → u.id ≠ a.id →
      ∀ login ∈ u.logins cfg, login ∉ a.logins cfg)
    (hlower : ∃ text, a.email = cfg.lowerCase text) :
    LoginNames cfg { s with users := s.users.insert a } := by
  have hrow : ∀ u ∈ (s.users.insert a).rows, u = a ∨ u ∈ s.users.rows ∧ u.key ≠ a.key := by
    intro u hu
    rw [Table.mem_rows_iff, Table.get?_insert] at hu
    split at hu
    · cases hu
      exact .inl rfl
    · rename_i hkey
      exact .inr ⟨Table.mem_rows_iff.mpr hu, hkey⟩
  constructor
  case apart =>
    intro u hu v hv hrealm hid login hlogin
    rcases hrow u hu with huNew | ⟨huOld, -⟩ <;> rcases hrow v hv with hvNew | ⟨hvOld, -⟩
    · exact absurd (huNew ▸ hvNew ▸ rfl) hid
    · subst huNew
      exact fun hmem => hapart v hvOld hrealm.symm (Ne.symm hid) login hmem hlogin
    · subst hvNew
      exact hapart u huOld hrealm hid login hlogin
    · exact h.apart u huOld v hvOld hrealm hid login hlogin
  case lower =>
    intro u hu
    rcases hrow u hu with hu | ⟨hu, -⟩
    · exact hu ▸ hlower
    · exact h.lower u hu

/-- Rows that go take no text from anyone. -/
theorem LoginNames.mono (h : LoginNames cfg s) (hrows : ∀ u ∈ s'.users.rows, u ∈ s.users.rows) :
    LoginNames cfg s' :=
  ⟨fun u hu v hv => h.apart u (hrows u hu) v (hrows v hv), fun u hu => h.lower u (hrows u hu)⟩

theorem LoginNames.call (h : LoginNames cfg s) {c : Call} (hc : c.names = true)
    (hcall : s.call cfg now c = .ok s') : LoginNames cfg s' := by
  cases c with
  | createUser a =>
    simp only [State.call, State.createUser] at hcall
    split at hcall
    · cases hcall
    split at hcall
    · cases hcall
    rename_i htaken
    cases hcall
    refine h.insert (fun u hu hrealm _ => ?_) ⟨Text.trim a.email, rfl⟩
    exact loginTaken_eq_false (by simpa using htaken) hu hrealm
  | row key call =>
    cases call with
    | updateUser c =>
      cases hcall
      simp only [State.row]
      split
      · exact h
      rename_i a ha
      obtain ⟨old, hold, happly⟩ := Option.bind_eq_some_iff.mp ha
      simp only [RowCall.apply] at happly
      split at happly
      · cases happly
      rename_i htaken
      cases happly
      have hkey := Table.keyOf_of_get? hold
      subst hkey
      have hmem := mem_users.mpr hold
      cases hemail : c.email with
      | none =>
        refine h.insert (fun u hu hrealm hid => ?_) ?_
        · simpa [Account.logins, Patch.apply, hemail] using h.apart u hu old hmem hrealm hid
        · simpa [Patch.apply, hemail] using h.lower old hmem
      | some email =>
        refine h.insert (fun u hu hrealm hid => ?_) ⟨Text.trim email, by simp [Patch.apply, hemail]⟩
        have hfree := emailTaken_eq_false (by simpa using htaken) hemail hu hrealm hid
        have hname := h.apart u hu old hmem hrealm hid
        intro login hlogin hmem'
        simp only [Account.logins, Patch.apply, hemail, Option.map_some, Option.getD_some, List.mem_cons,
          List.not_mem_nil, or_false] at hmem'
        rcases hmem' with rfl | rfl
        · exact hname _ hlogin (by simp [Account.logins])
        · exact hfree hlogin
    | _ => cases hc
  | deleteUser key =>
    cases hcall
    cases huser : s.users.get? key with
    | none => simpa [State.deleteUser, huser] using h
    | some user =>
      refine h.mono fun u hu => ?_
      simp only [State.deleteUser, huser, Option.map_some, Option.elim_some] at hu
      rw [Table.mem_rows_iff, Table.get?_erase] at hu
      split at hu
      · cases hu
      · exact mem_users.mpr hu
  | _ => cases hc

/-- Calls one after the other, those that throw among them. -/
theorem LoginNames.calls (cs : List (Instant × Call)) (hcs : ∀ c ∈ cs, c.2.names = true)
    (h : LoginNames cfg s) : LoginNames cfg (State.calls cfg s cs) := by
  induction cs generalizing s with
  | nil => exact h
  | cons c rest ih =>
    have hrest : ∀ d ∈ rest, d.2.names = true := fun d hd => hcs d (.tail c hd)
    rw [State.calls]
    split
    · exact ih hrest h
    · rename_i hcall
      exact ih hrest (h.call (hcs c (.head rest)) hcall)

/-- The test of `findUserByLogin`. -/
theorem leads_iff (realm login : String) (u : Account) :
    (u.realm = realm && (cfg.lowerCase u.username = login || u.email = login)) = true ↔
      u.realm = realm ∧ login ∈ u.logins cfg := by
  simp only [Account.logins, List.mem_cons, List.not_mem_nil, or_false, Bool.and_eq_true,
    Bool.or_eq_true, decide_eq_true_eq]
  exact and_congr_right fun _ => or_congr eq_comm eq_comm

/-- The user that the text leads to is the only one. -/
theorem LoginNames.findUserByLogin (h : LoginNames cfg s) (realm login : String) (u : Account) :
    s.findUserByLogin cfg realm login = some u ↔
      u ∈ s.users.rows ∧ u.realm = realm ∧ cfg.lowerCase (Text.trim login) ∈ u.logins cfg := by
  constructor
  · intro hfind
    have htest := List.find?_some (p := fun u : Account => u.realm = realm && _) hfind
    exact ⟨List.mem_of_find?_eq_some hfind, (leads_iff ..).mp htest⟩
  · rintro ⟨hu, hmem⟩
    cases hfind : s.findUserByLogin cfg realm login with
    | none => exact absurd ((leads_iff ..).mpr hmem) (List.find?_eq_none.mp hfind u hu)
    | some v =>
      have hv := List.mem_of_find?_eq_some hfind
      have htest := List.find?_some (p := fun u : Account => u.realm = realm && _) hfind
      have hvmem := (leads_iff ..).mp htest
      have hrealm := hmem.1.trans hvmem.1.symm
      by_cases hid : u.id = v.id
      · have hkey : u.key = v.key := Prod.ext hrealm hid
        have hu' := mem_users.mp hu
        rw [hkey, mem_users.mp hv] at hu'
        exact hu'
      · exact absurd hvmem.2 (h.apart u hu v hv hrealm hid _ hmem.2)

theorem findUserByLogin_eq_none (realm login : String) :
    s.findUserByLogin cfg realm login = none ↔
      ∀ u ∈ s.users.rows, u.realm = realm → cfg.lowerCase (Text.trim login) ∉ u.logins cfg := by
  simp only [State.findUserByLogin, List.find?_eq_none]
  exact forall₂_congr fun u _ => (not_congr (leads_iff ..)).trans not_and

/-- A call that fails leaves the store. -/
theorem calls_of_fails {c : Call} (h : c.fails cfg s = true) :
    State.calls cfg s [(now, c)] = s := by
  cases c with
  | createUser a =>
    simp only [Call.fails, Bool.or_eq_true] at h
    simp only [State.calls, State.call, State.createUser]
    by_cases hid : (s.users.get? (normalizeUser cfg a).key).isSome = true
    · rw [if_pos hid]
    · rw [if_neg hid, if_pos (h.resolve_left hid)]
  | row key call =>
    cases call with
    | updateUser c =>
      simp only [Call.fails, Bool.or_eq_true, Option.isNone_iff_eq_none] at h
      have hnone : (s.users.get? key).bind ((RowCall.updateUser c).apply cfg now s key) = none := by
        rcases h with h | h
        · rw [h, Option.bind_none]
        · simp [RowCall.apply, h]
      simp only [State.calls, State.call, State.row, hnone]
    | _ => cases h
  | deleteUser key =>
    simp only [Call.fails, Option.isNone_iff_eq_none] at h
    simp [State.calls, State.call, State.deleteUser, h]
  | _ => cases h

/-- What holds of the names and addresses of a store. -/
structure LoginLaw (cfg : Config) (s : State) : Prop where
  apart : ∀ u ∈ s.users.rows, ∀ v ∈ s.users.rows, u.realm = v.realm → u.id ≠ v.id →
    ∀ login ∈ u.logins cfg, login ∉ v.logins cfg
  find : ∀ realm login u, s.findUserByLogin cfg realm login = some u ↔
    u ∈ s.users.rows ∧ u.realm = realm ∧ cfg.lowerCase (Text.trim login) ∈ u.logins cfg
  none : ∀ realm login, s.findUserByLogin cfg realm login = none ↔
    ∀ u ∈ s.users.rows, u.realm = realm → cfg.lowerCase (Text.trim login) ∉ u.logins cfg
  fails : ∀ now (c : Call), c.fails cfg s = true → State.calls cfg s [(now, c)] = s

theorem loginLaw_of_calls (cs : List (Instant × Call)) (hcs : ∀ c ∈ cs, c.2.names = true) :
    LoginLaw cfg (State.calls cfg .empty cs) := by
  have hnames : LoginNames cfg (State.calls cfg .empty cs) := loginNames_empty.calls cs hcs
  constructor
  case apart => exact hnames.apart
  case find => exact hnames.findUserByLogin
  case none => exact findUserByLogin_eq_none
  case fails => exact fun _ _ => calls_of_fails

end AuthMe.DataLayer.Tables

import AuthMe.Scim.Membership
import AuthMe.Scim.Normal
import AuthMe.Scim.PatchFrame

/-!
# A PATCH that changes nothing

The PATCH routes of `src/src/scim/router.js` compare what the operations leave, normalised, with the
attributes that the repository has returned, and write only if these differ. The comparison
recognises a PATCH without an effect for the resources that the normalisation gives back, so for
what it has returned itself, but not for every row of `users`: the other producers of rows keep
names that `normalizeUser` changes or refuses.
-/

namespace AuthMe.Scim

/-! ## The routes -/

/-- The attributes that PATCH of a User passes to `replaceUser`; `none` is the answer without it. -/
def patchUser (lower : LowerCase) (current : User) (body : Value) : Except Error (Option User) := do
  let patched ← applyUserPatch lower current.toResource body
  let next ← normalizeUser lower (toObject UserAttribute.key UserAttribute.all patched)
    current.password.text?
  return if next.deepEquals current then none else some next

/-- The attributes that PATCH of a Group passes to `replaceGroup`. -/
def patchGroup (lower : LowerCase) (current : Group) (body : Value) :
    Except Error (Option Group) := do
  let patched ← applyGroupPatch lower current.toResource body
  let next ← normalizeGroup lower (toObject GroupAttribute.key GroupAttribute.all patched)
  return if next = current then none else some next

/-- The normalisation gives the attributes back, and a PATCH that leaves them writes nothing. -/
structure RecognisesUser (lower : LowerCase) (u : User) : Prop where
  back : ∃ n, normalizeUser lower u.toValue u.password.text? = .ok n ∧ n.deepEquals u = true
  unchanged : ∀ body r, applyUserPatch lower u.toResource body = .ok r → Represents r u →
    patchUser lower u body = .ok none

structure RecognisesGroup (lower : LowerCase) (g : Group) : Prop where
  back : normalizeGroup lower g.toValue = .ok g
  unchanged : ∀ body r, applyGroupPatch lower g.toResource body = .ok r → RepresentsGroup r g →
    patchGroup lower g body = .ok none

section Recognised

variable {lower : LowerCase} {u v : User} {g : Group}

theorem Field.text?_eq_some {field : Field} {s : String} :
    field.text? = some s ↔ field = .value s := by
  cases field <;> simp [Field.text?]

theorem missing_text? : u.password = .missing → u.password.text? = none := by
  intro h
  rw [h]
  rfl

theorem User.Normal.recognised (h : u.Normal) : RecognisesUser lower u where
  back := normalizeUser_represents lower h (User.represents h.multi) missing_text?
  unchanged body r hpatch hr := by
    obtain ⟨n, hn, hsame⟩ := normalizeUser_represents lower h hr missing_text?
    rw [patchUser, hpatch, bind_eq_ok]
    refine ⟨r, rfl, ?_⟩
    rw [hn, bind_eq_ok]
    refine ⟨n, rfl, ?_⟩
    rw [if_pos hsame]
    rfl

theorem Group.Normal.recognised (h : g.Normal) : RecognisesGroup lower g where
  back := normalizeGroup_represents lower h g.represents
  unchanged body r hpatch hr := by
    have hn := normalizeGroup_represents lower h hr
    rw [patchGroup, hpatch, bind_eq_ok]
    refine ⟨r, rfl, ?_⟩
    rw [hn, bind_eq_ok]
    refine ⟨g, rfl, ?_⟩
    rw [if_pos rfl]
    rfl

/-- A record that deeply equals a normal one is normal. -/
theorem User.Normal.congr (h : u.Normal) (hsame : u.deepEquals v = true) : v.Normal := by
  obtain ⟨huserName, hexternalId, htext, -, hpassword, hname, hmulti⟩ :=
    User.deepEquals_iff.mp hsame
  refine ⟨huserName ▸ h.userName, hexternalId ▸ h.externalId, fun a => htext a ▸ h.text a,
    hpassword ▸ h.password, ?_, ?_⟩
  · intro c hc
    rcases sameOption_iff.mp hname with ⟨-, hnone⟩ | ⟨c', d, hc', hd, hentries⟩
    · rw [hc] at hnone
      cases hnone
    · rw [hc] at hd
      cases hd
      exact (h.name c' hc').congr (sameEntries_iff.mp hentries)
  · intro a items hitems
    rcases sameOption_iff.mp (hmulti a) with ⟨-, hnone⟩ | ⟨items', js, hitems', hjs, hlist⟩
    · rw [hitems] at hnone
      cases hnone
    · rw [hitems] at hjs
      cases hjs
      exact (h.multi a items' hitems').congr hlist

theorem RecognisesUser.normal (h : RecognisesUser lower u) (hpassword : u.password.Short 1024) :
    u.Normal := by
  obtain ⟨n, hn, hsame⟩ := h.back
  have hexisting : ∀ p, u.password.text? = some p → Text.length p ≤ 1024 :=
    fun p hp => hpassword p (Field.text?_eq_some.mp hp)
  exact (normalizeUser_normal hexisting hn).congr hsame

end Recognised

/-! ## The repository in memory -/

/-- The attributes of a User that POST, PUT and PATCH leave in `src/src/scim/memory-repository.js`. -/
inductive MemoryUser (lower : LowerCase) : User → Prop
  | created {input : Value} {u : User} (h : normalizeUser lower input none = .ok u) :
    MemoryUser lower u
  | replaced {current u : User} {input : Value} (hcurrent : MemoryUser lower current)
    (h : normalizeUser lower input current.password.text? = .ok u) : MemoryUser lower u

/-- The attributes of a Group; the deletion of a User takes it out of its Groups. -/
inductive MemoryGroup (lower : LowerCase) : Group → Prop
  | written {input : Value} {g : Group} (h : normalizeGroup lower input = .ok g) :
    MemoryGroup lower g
  | userDeleted {g : Group} (id : String) (h : MemoryGroup lower g) :
    MemoryGroup lower { g with members := g.members.filter (· ≠ id) }

theorem MemoryUser.normal {lower : LowerCase} {u : User} (h : MemoryUser lower u) : u.Normal := by
  induction h with
  | created h => exact normalizeUser_normal (by simp) h
  | replaced _ h ih =>
    exact normalizeUser_normal (fun p hp => ih.password p (Field.text?_eq_some.mp hp)) h

theorem MemoryGroup.normal {lower : LowerCase} {g : Group} (h : MemoryGroup lower g) :
    g.Normal := by
  induction h with
  | written h => exact normalizeGroup_normal h
  | userDeleted id _ ih =>
    exact ⟨ih.displayName, ih.externalId, fun value hvalue => ih.members value
      (List.mem_of_mem_filter hvalue), ih.distinct.filter _⟩

/-! ## Rows of `users` -/

/-- What SCIM has saved beside the columns, if it has written the row at all. -/
def Saved.Written (saved : Saved) : Prop :=
  saved = .empty ∨ ∃ u : User, u.Normal ∧ saved = scimAttributes u

/-- The columns of a row that `normalizeUser` leaves as they are. -/
structure UserRow.Fits (row : UserRow) : Prop where
  username : GoodName row.username
  externalId : ∀ s, row.externalId = some s → Text.length s ≤ 256
  displayName : Text.length row.displayName ≤ 2048
  givenName : Text.length row.givenName ≤ 2048
  familyName : Text.length row.familyName ≤ 2048
  email : (row.scim.multi .emails).getD [] = [] → Text.length row.email ≤ 2048
  roles : (row.scim.multi .roles).getD [] = [] → ∀ role ∈ row.roles, Text.length role ≤ 2048

section Rows

variable {row : UserRow}

theorem externalIdField_short {saved : Option String} {max : Nat} :
    (externalIdField saved).Short max ↔ ∀ s, saved = some s → Text.length s ≤ max := by
  cases saved <;> simp [externalIdField, Field.Short]

theorem Saved.Written.text {saved : Saved} (h : saved.Written) (a : TextAttribute) :
    ∀ s, saved.text a = some s → Text.length s ≤ 2048 := by
  rcases h with rfl | ⟨u, hu, rfl⟩
  · intro s hs
    cases hs
  · exact fun s hs => hu.text a s (Field.text?_eq_some.mp hs)

theorem Saved.Written.name {saved : Saved} (h : saved.Written) :
    GoodTexts (saved.name.getD .empty) := by
  rcases h with rfl | ⟨u, hu, rfl⟩
  · exact .empty
  · cases hname : u.name with
    | none =>
      rw [scimAttributes, hname]
      exact .empty
    | some c =>
      rw [scimAttributes, hname]
      exact hu.name c hname

theorem Saved.Written.multi {saved : Saved} (h : saved.Written) {a : MultiAttribute}
    {items : List Item} (hitems : saved.multi a = some items) : GoodItems items := by
  rcases h with rfl | ⟨u, hu, rfl⟩
  · cases hitems
  · exact hu.multi a items hitems

theorem goodTexts_set {m : OrderedMap String String} {k s : String} (h : GoodTexts m)
    (hk : k ≠ "__proto__") : GoodTexts (m.set k s) ↔ Text.length s ≤ 2048 := by
  constructor
  · intro hset
    exact hset.short k s (by rw [OrderedMap.get?_set, if_pos rfl])
  · intro hs
    have hassign := h.assign k hs
    rwa [assign, if_neg hk] at hassign

theorem goodTexts_setUnlessEmpty {m : OrderedMap String String} {k s : String} (h : GoodTexts m)
    (hk : k ≠ "__proto__") :
    GoodTexts (if s = "" then m else m.set k s) ↔ Text.length s ≤ 2048 := by
  split
  · rename_i hs
    subst hs
    exact ⟨fun _ => Nat.zero_le _, fun _ => h⟩
  · exact goodTexts_set h hk

theorem get?_setUnlessEmpty {m : OrderedMap String String} {k k' s : String} :
    (if s = "" then m else m.set k s).get? k' =
      if k' = k ∧ s ≠ "" then some s else m.get? k' := by
  by_cases hs : s = ""
  · simp [hs]
  · simp [hs, OrderedMap.get?_set]

/-- The saved name with the columns in it. -/
theorem goodTexts_rowName (h : row.scim.Written) :
    GoodTexts (rowName row) ↔ Text.length row.givenName ≤ 2048 ∧
      Text.length row.familyName ≤ 2048 ∧ Text.length row.displayName ≤ 2048 := by
  constructor
  · intro hgood
    have hcolumn : ∀ k s, (s ≠ "" → (rowName row).get? k = some s) → Text.length s ≤ 2048 := by
      intro k s hget
      by_cases hs : s = ""
      · subst hs
        exact Nat.zero_le _
      · exact hgood.short k s (hget hs)
    refine ⟨hcolumn "givenName" _ fun hne => ?_, hcolumn "familyName" _ fun hne => ?_,
      hcolumn "formatted" _ fun _ => ?_⟩
    · simp [rowName, OrderedMap.get?_set, get?_setUnlessEmpty, hne]
    · simp [rowName, OrderedMap.get?_set, hne]
    · simp [rowName]
  · rintro ⟨hgiven, hfamily, hdisplay⟩
    have h₁ := (goodTexts_setUnlessEmpty h.name (k := "givenName") (by decide)).mpr hgiven
    have h₂ := (goodTexts_setUnlessEmpty h₁ (k := "familyName") (by decide)).mpr hfamily
    exact (goodTexts_set h₂ (by decide)).mpr hdisplay

theorem good_valueItem {primary : Option Bool} {value : String} :
    (valueItem primary value).Good ↔ Text.length value ≤ 2048 := by
  have hset := goodTexts_set (s := value) GoodTexts.empty (show "value" ≠ "__proto__" by decide)
  refine ⟨fun h => hset.mp h.toGoodTexts, fun h => ⟨hset.mpr h, ?_⟩⟩
  simp [valueItem, OrderedMap.get?_set]

/-- Values from a column, at most one of which is the primary one. -/
theorem goodItems_values {primary : Option Bool} {values : List String}
    (hone : primary = some true → values.length ≤ 1) :
    GoodItems (values.map (valueItem primary)) ↔ ∀ value ∈ values, Text.length value ≤ 2048 := by
  constructor
  · intro h value hvalue
    exact good_valueItem.mp (h.good _ (List.mem_map_of_mem hvalue))
  · intro h
    refine ⟨?_, ?_⟩
    · intro item hitem
      obtain ⟨value, hvalue, rfl⟩ := List.mem_map.mp hitem
      exact good_valueItem.mpr (h value hvalue)
    · by_cases hp : primary = some true
      · have hcount := List.countP_le_length (l := values.map (valueItem primary))
          (p := fun item => item.primary = some true)
        rw [List.length_map] at hcount
        exact Nat.le_trans hcount (hone hp)
      · rw [List.countP_eq_zero.mpr]
        · exact Nat.zero_le _
        · intro item hitem
          obtain ⟨value, -, rfl⟩ := List.mem_map.mp hitem
          simp [valueItem, hp]

/-- What was saved is good; what stands for it otherwise has to be. -/
theorem goodItems_savedItems {saved : Option (List Item)} {otherwise : List Item}
    (h : ∀ items, saved = some items → GoodItems items) :
    GoodItems (savedItems saved otherwise) ↔ (saved.getD [] = [] → GoodItems otherwise) := by
  cases saved with
  | none => simp [savedItems]
  | some items =>
    cases items with
    | nil => simp [savedItems]
    | cons item items => simp [savedItems, h _ rfl]

/-- Which rows are normal resources. -/
theorem rowAttributes_normal (h : row.scim.Written) : (rowAttributes row).Normal ↔ row.Fits := by
  have hname := goodTexts_rowName h
  have hemails := @goodItems_savedItems _ [valueItem (some true) row.email]
    fun items => h.multi (a := .emails)
  have hroles := @goodItems_savedItems _ (row.roles.map (valueItem none))
    fun items => h.multi (a := .roles)
  have hemail := @goodItems_values (some true) [row.email] fun _ => Nat.le_refl _
  have hrole := @goodItems_values none row.roles (by simp)
  constructor
  · intro hn
    obtain ⟨hgiven, hfamily, hdisplay⟩ := hname.mp (hn.name _ rfl)
    refine ⟨hn.userName, externalIdField_short.mp hn.externalId, hdisplay, hgiven, hfamily, ?_, ?_⟩
    · intro hnone
      exact hemail.mp (hemails.mp (hn.multi .emails _ rfl) hnone) _ List.mem_cons_self
    · intro hnone
      exact hrole.mp (hroles.mp (hn.multi .roles _ rfl) hnone)
  · intro hf
    refine ⟨hf.username, externalIdField_short.mpr hf.externalId, ?_, ?_, ?_, ?_⟩
    · intro a
      cases a with
      | displayName =>
        intro s hs
        cases hs
        exact hf.displayName
      | _ => exact externalIdField_short.mpr (h.text _)
    · intro s hs
      cases hs
    · intro c hc
      cases hc
      exact hname.mpr ⟨hf.givenName, hf.familyName, hf.displayName⟩
    · intro a items hitems
      cases a with
      | emails =>
        cases hitems
        refine hemails.mpr fun hnone => hemail.mpr fun value hvalue => ?_
        rw [List.mem_singleton.mp hvalue]
        exact hf.email hnone
      | roles =>
        cases hitems
        exact hroles.mpr fun hnone => hrole.mpr (hf.roles hnone)
      | _ => exact h.multi hitems

theorem recognisesUser_row {lower : LowerCase} (h : row.scim.Written) :
    RecognisesUser lower (rowAttributes row) ↔ row.Fits := by
  rw [← rowAttributes_normal h]
  constructor
  · intro hr
    exact hr.normal fun s hs => by cases hs
  · exact User.Normal.recognised

end Rows

/-! ## Rows of `scim_groups` -/

/-- What `createGroup` and `replaceGroup` write. -/
def GroupRow.Written (row : GroupRow) : Prop :=
  ∃ g : Group, g.Normal ∧ row.displayName = g.displayName ∧ row.externalId = g.externalId.text?

theorem length_of_matchesShape {ps : List (Char → Bool)} {cs : List Char}
    (h : matchesShape ps cs = true) : cs.length = ps.length := by
  induction ps generalizing cs with
  | nil =>
    cases cs with
    | nil => rfl
    | cons c cs => cases h
  | cons p ps ih =>
    cases cs with
    | nil => cases h
    | cons c cs =>
      simp only [matchesShape, Bool.and_eq_true] at h
      rw [List.length_cons, List.length_cons, ih h.2]

theorem isWhiteSpace_of_isHex {c : Char} (h : isHex c = true ∨ c = '-') :
    Text.isWhiteSpace c = false := by
  rcases h with h | rfl
  · simp only [isHex, Bool.or_eq_true, Bool.and_eq_true, decide_eq_true_eq] at h
    have hrange : 48 ≤ c.toNat ∧ c.toNat ≤ 57 ∨ 97 ≤ c.toNat ∧ c.toNat ≤ 102 := h
    simp only [Text.isWhiteSpace, Bool.or_eq_false_iff, List.contains_eq_mem, List.mem_cons,
      List.not_mem_nil, or_false, decide_eq_false_iff_not, not_or, Bool.and_eq_false_iff]
    omega
  · decide

/-- The text of a `uuid` is accepted as the value of a member. -/
theorem good_text (u : Uuid) : Text.trim u.text ≠ "" ∧ Text.length u.text ≤ 256 := by
  have hlength : u.text.toList.length = 36 := length_of_matchesShape u.canonical
  constructor
  · intro hblank
    have htrim := congrArg String.toList hblank
    rw [Text.trim_toList] at htrim
    have hall : ∀ c ∈ u.text.toList, ¬ Text.isWhiteSpace c = true := by
      intro c hc
      rw [isWhiteSpace_of_isHex (Uuid.isHex_or_dash_text u c hc)]
      decide
    have hkeep : ∀ l : List Char, (∀ c ∈ l, ¬ Text.isWhiteSpace c = true) →
        l.dropWhile Text.isWhiteSpace = l := by
      intro l hl
      cases l with
      | nil => rfl
      | cons c cs => exact List.dropWhile_cons_of_neg (hl c List.mem_cons_self)
    rw [hkeep _ hall, List.rdropWhile, hkeep _ fun c hc => hall c (List.mem_reverse.mp hc),
      List.reverse_reverse] at htrim
    rw [htrim] at hlength
    cases hlength
  · rw [Text.length_ascii (isAscii_text u), hlength]
    decide

theorem nodup_membersOf {db : Database} {t : Tables} (ht : t.Constraints db) (groupId : Uuid) :
    (membersOf t groupId).Nodup := by
  refine (List.perm_insertionSort _ _).nodup_iff.mpr ?_
  refine (List.nodup_map_iff_inj_on (ht.primaryKey.filter _)).mpr ?_
  intro m hm m' hm' heq
  simp only [List.mem_filter, decide_eq_true_eq] at hm hm'
  cases m
  cases m'
  simp only at heq hm hm'
  rw [heq, hm.2, hm'.2]

theorem rowToGroup_normal {db : Database} {t : Tables} (ht : t.Constraints db) {row : GroupRow}
    (h : row.Written) : (rowToGroup t row).attributes.Normal := by
  obtain ⟨g, hg, hname, hexternalId⟩ := h
  refine ⟨?_, externalIdField_short.mpr ?_, ?_, ?_⟩
  · change GoodName row.displayName
    exact hname ▸ hg.displayName
  · intro s hs
    rw [hexternalId] at hs
    exact hg.externalId s (Field.text?_eq_some.mp hs)
  · intro value hvalue
    obtain ⟨u, -, rfl⟩ := List.mem_map.mp hvalue
    exact good_text u
  · refine (nodup_membersOf ht row.id).map ?_
    intro u v huv
    cases u
    cases v
    cases huv
    rfl

/-- **Changes without an effect.** Normalisation is a projection. What the repository in memory
returns and the rows of `scim_groups` are recognised. A row of `users` is, if and only if its columns
fit. -/
theorem no_op (lower : LowerCase) :
    (∀ input u, normalizeUser lower input none = .ok u →
      ∃ n, normalizeUser lower u.toValue none = .ok n ∧ n.deepEquals u = true) ∧
    (∀ input g, normalizeGroup lower input = .ok g → normalizeGroup lower g.toValue = .ok g) ∧
    (∀ u, MemoryUser lower u → RecognisesUser lower u) ∧
    (∀ g, MemoryGroup lower g → RecognisesGroup lower g) ∧
    (∀ (db : Database) (t : Tables) (row : GroupRow), t.Constraints db → row.Written →
      RecognisesGroup lower (rowToGroup t row).attributes) ∧
    ∀ row : UserRow, row.scim.Written → (RecognisesUser lower (rowAttributes row) ↔ row.Fits) := by
  refine ⟨?_, ?_, fun u hu => hu.normal.recognised, fun g hg => hg.normal.recognised, ?_,
    fun row hrow => recognisesUser_row hrow⟩
  · intro input u hu
    have hnormal := normalizeUser_normal (by simp) hu
    exact normalizeUser_represents lower hnormal (User.represents hnormal.multi) fun _ => rfl
  · intro input g hg
    exact (normalizeGroup_normal hg).recognised.back
  · intro db t row ht hrow
    exact (rowToGroup_normal ht hrow).recognised

theorem no_op_someUser : RecognisesUser .onlyAscii (rowAttributes someUser) := by
  refine ((no_op .onlyAscii).2.2.2.2.2 someUser (.inl rfl)).mpr ?_
  refine ⟨⟨rfl, by decide, by decide⟩, ?_, by decide, by decide, by decide, fun _ => by decide, ?_⟩
  · intro s hs
    cases hs
  · intro _ role hrole
    cases hrole

/-! ### A row of an upstream identity -/

/-- The profile that `normalize` in `src/src/repositories/federated-identity-repository.js`
returns. -/
structure Profile where
  username : String
  email : String
  emailVerified : Bool
  name : String
  givenName : String
  familyName : String
  roles : List String
  groups : List String

/-- `text(value, fallback, max)`, as the database stores it. -/
def profileText (value : Value) (fallback : String) (max : Nat) : String :=
  let resolved := match value with
    | .string s => Text.trim s
    | _ => fallback
  Text.wellFormed ((Text.units resolved).take max)

/-- `strings(value)`. -/
def profileTexts (value : Value) : List String :=
  let texts := value.items.filterMap fun
    | .string s => some (Text.trim s)
    | _ => none
  (distinct (texts.filter (· ≠ ""))).take 200

/-- The profile of `normalize(input)`; `none` is the error. -/
def normalizeProfile (lower : LowerCase) (externalSubject : String) (profile : Value) :
    Option Profile :=
  match profile with
  | .undefined | .null | .object _ =>
    let username := profileText (profile.get "username") externalSubject 256
    if username = "" then none
    else some
      { username := username
        email := lower (profileText (profile.get "email") "" 320)
        emailVerified := (profile.get "emailVerified").same (.bool true)
        name := profileText (profile.get "name") username 256
        givenName := profileText (profile.get "givenName") "" 256
        familyName := profileText (profile.get "familyName") "" 256
        roles := profileTexts (profile.get "roles")
        groups := profileTexts (profile.get "groups") }
  | _ => none

/-- The row that `resolve` inserts for a new identity. -/
def federatedRow (id : Uuid) (disabledPasswordHash : String) (profile : Profile) : UserRow where
  id := id
  username := profile.username
  email := orText profile.email ("federated-" ++ id.text ++ "@invalid.local")
  emailVerified := profile.emailVerified
  displayName := profile.name
  givenName := profile.givenName
  familyName := profile.familyName
  enabled := true
  securityVersion := 0
  passwordHash := disabledPasswordHash
  roles := profile.roles
  groups := profile.groups
  scim := .empty
  externalId := none
  version := 1

/-! A user name that is cut off after a space -/

def letters (n : Nat) : List Char := List.replicate (n + 1) 'a'

def longName (n : Nat) : String := String.ofList (letters n ++ [' ', 'b'])

def storedName (n : Nat) : String := String.ofList (letters n ++ [' '])

def trimmedName (n : Nat) : String := String.ofList (letters n)

theorem dropWhile_letters (n : Nat) (l : List Char) :
    (letters n ++ l).dropWhile Text.isWhiteSpace = letters n ++ l := by
  rw [letters, List.replicate_succ, List.cons_append, List.dropWhile_cons_of_neg (by decide)]

theorem length_units_storedName (n : Nat) : (Text.units (storedName n)).length = n + 2 := by
  have ha : Text.charUnits 'a' = [97] := rfl
  have hspace : Text.charUnits ' ' = [32] := rfl
  simp [Text.units, storedName, letters, List.length_flatMap, ha, hspace]

theorem profileText_longName (n : Nat) (fallback : String) :
    profileText (.string (longName n)) fallback (n + 2) = storedName n := by
  have htrim : Text.trim (longName n) = longName n := by
    apply String.toList_injective
    rw [Text.trim_toList, longName, String.toList_ofList, dropWhile_letters,
      show letters n ++ [' ', 'b'] = (letters n ++ [' ']) ++ ['b'] by simp,
      List.rdropWhile_concat_neg _ _ _ (by decide)]
  have hunits : Text.units (longName n) = Text.units (storedName n) ++ [98] := by
    simp only [Text.units, longName, storedName, String.toList_ofList, List.flatMap_append]
    rw [List.append_assoc]
    rfl
  change Text.wellFormed ((Text.units (Text.trim (longName n))).take (n + 2)) = storedName n
  rw [htrim, hunits, List.take_left' (length_units_storedName n), Text.wellFormed_units]

theorem trim_storedName (n : Nat) : Text.trim (storedName n) = trimmedName n := by
  apply String.toList_injective
  rw [Text.trim_toList, storedName, trimmedName, String.toList_ofList, String.toList_ofList,
    dropWhile_letters, List.rdropWhile_concat_pos _ _ _ (by decide), letters,
    List.replicate_succ', List.rdropWhile_concat_neg _ _ _ (by decide)]

theorem length_storedName (n : Nat) : Text.length (storedName n) = n + 2 := by
  have hascii : Text.isAscii (storedName n) = true := by
    simp only [Text.isAscii, storedName, letters, String.toList_ofList, List.all_append,
      List.all_replicate, Bool.and_eq_true]
    exact ⟨rfl, rfl⟩
  rw [Text.length_ascii hascii, storedName, String.toList_ofList, letters, List.length_append,
    List.length_replicate]
  rfl

theorem trimmedName_ne (n : Nat) : trimmedName n ≠ "" ∧ trimmedName n ≠ storedName n := by
  constructor
  · intro h
    have hlist := congrArg String.toList h
    rw [trimmedName, String.toList_ofList, letters, List.replicate_succ] at hlist
    cases hlist
  · intro h
    have hlength := congrArg (fun s => s.toList.length) h
    simp only [trimmedName, storedName, String.toList_ofList, List.length_append,
      List.length_singleton] at hlength
    omega

/-- The profile that an upstream answers with. -/
def upstreamProfile (username : String) : Value :=
  .object [("username", .string username), ("name", .string "Ada")]

def setActive : Value := oneOperation "replace" "active" (.bool true)

def federatedProfile (username : String) : Profile :=
  ⟨username, "", false, "Ada", "", "", [], []⟩

/-- The record of a User that came from an upstream identity. -/
def federatedUser (username : String) : User :=
  rowAttributes (federatedRow someUser.id "hash" (federatedProfile username))

/-- The normalisation reads the user name at one place. -/
theorem normalizeUserSource_congr {r r' : Resource UserAttribute} {existing : Option String}
    (hname : requiredName ((r .userName).getD .undefined) "userName" =
      requiredName ((r' .userName).getD .undefined) "userName")
    (hother : ∀ a, a ≠ .userName → r a = r' a) :
    normalizeUserSource r existing = normalizeUserSource r' existing := by
  have hexternalId := hother .externalId (by decide)
  have hactive := hother .active (by decide)
  have hpassword := hother .password (by decide)
  have hfullName := hother .name (by decide)
  have htext : ∀ a, r (.text a) = r' (.text a) := fun a => hother _ (by simp)
  have hmulti : ∀ a, r (.multi a) = r' (.multi a) := fun a => hother _ (by simp)
  simp only [normalizeUserSource, normalizeActive, normalizePassword, normalizeName,
    normalizeAttribute, fieldIn, hname, hexternalId, hactive, hpassword, hfullName, htext, hmulti]

theorem federatedUser_normal {username : String} (h : GoodName username) :
    (federatedUser username).Normal := by
  have hname : Text.length "Ada" ≤ 2048 := by decide
  have hempty : Text.length "" ≤ 2048 := by decide
  have hemail : (federatedRow someUser.id "hash" (federatedProfile username)).email =
      "federated-" ++ someUser.id.text ++ "@invalid.local" := by
    simp [federatedRow, federatedProfile, orText]
  refine (rowAttributes_normal (.inl rfl)).mpr ⟨h, ?_, hname, hempty, hempty, fun _ => ?_, ?_⟩
  · intro s hs
    cases hs
  · rw [hemail]
    decide
  · intro _ role hrole
    cases hrole

/-- A PATCH that sets `active` to what it was writes every row whose user name is normalised to
another one. -/
theorem patchUser_federatedUser {username trimmed : String}
    (h : requiredName (.string username) "userName" = .ok trimmed) (hne : trimmed ≠ username) :
    ∃ r next, applyUserPatch .onlyAscii (federatedUser username).toResource setActive = .ok r ∧
      Represents r (federatedUser username) ∧
      patchUser .onlyAscii (federatedUser username) setActive = .ok (some next) ∧
      next.userName ≠ (federatedUser username).userName := by
  obtain ⟨r, hr⟩ : ∃ r, applyUserPatch .onlyAscii (federatedUser username).toResource setActive =
      .ok r := ⟨_, rfl⟩
  have hsame : r = (federatedUser username).toResource := by
    cases hr
    funext a
    cases a <;> rfl
  subst hsame
  have hgood := requiredName_good h
  have hnormal := federatedUser_normal hgood
  have hsource : normalizeUserSource (federatedUser username).toResource none =
      normalizeUserSource (federatedUser trimmed).toResource none := by
    refine normalizeUserSource_congr (h.trans (requiredName_of_good hgood _).symm) ?_
    intro a ha
    cases a with
    | userName => exact absurd rfl ha
    | _ => rfl
  obtain ⟨next, hnext, hdeep⟩ :=
    normalizeUserSource_represents hnormal (User.represents hnormal.multi) fun _ => rfl
  have hname : next.userName = trimmed := (User.deepEquals_iff.mp hdeep).1
  refine ⟨_, next, hr, User.represents hnormal.multi, ?_, fun heq => hne (hname.symm.trans heq)⟩
  have hdiffers : ¬ next.deepEquals (federatedUser username) = true :=
    fun heq => hne (hname.symm.trans (User.deepEquals_iff.mp heq).1)
  have hnormalized : normalizeUser .onlyAscii (toObject UserAttribute.key UserAttribute.all
      (federatedUser username).toResource) none = .ok next := by
    rw [normalizeUser, canonicalInput_toObject (canonical_user .onlyAscii) UserAttribute.mem_all,
      bind_eq_ok]
    exact ⟨_, rfl, hsource.trans hnext⟩
  rw [patchUser, hr, bind_eq_ok]
  refine ⟨_, rfl, ?_⟩
  rw [missing_text? rfl, hnormalized, bind_eq_ok]
  refine ⟨next, rfl, ?_⟩
  rw [if_neg hdiffers]
  rfl

theorem normalizeProfile_upstreamProfile {username stored : String}
    (h : profileText (.string username) "subject" 256 = stored) (hne : stored ≠ "") :
    normalizeProfile .onlyAscii "subject" (upstreamProfile username) =
      some (federatedProfile stored) := by
  have hname : profileText (.string "Ada") stored 256 = "Ada" := by
    change profileText (.string "Ada") "" 256 = "Ada"
    decide
  have hempty : profileText .undefined "" 256 = "" ∧
      LowerCase.onlyAscii (profileText .undefined "" 320) = "" := by decide
  simp [normalizeProfile, upstreamProfile, federatedProfile, Value.get, OrderedMap.lookup, h, hne,
    hname, hempty, Value.same, profileTexts, Value.items, distinct]

/-- A PATCH that sets `active` to what it was writes the row with another user name. -/
theorem no_op_longName : ∃ profile current r next,
    normalizeProfile .onlyAscii "subject" (upstreamProfile (longName 254)) = some profile ∧
      current = rowAttributes (federatedRow someUser.id "hash" profile) ∧
      applyUserPatch .onlyAscii current.toResource setActive = .ok r ∧ Represents r current ∧
      patchUser .onlyAscii current setActive = .ok (some next) ∧
      next.userName ≠ current.userName := by
  have hlength := length_storedName 254
  have hpresent : storedName 254 ≠ "" := by
    intro h
    rw [h] at hlength
    cases hlength
  have hprofile := normalizeProfile_upstreamProfile (profileText_longName 254 "subject") hpresent
  have htrim := trim_storedName 254
  have hrequired := requiredName_string (Nat.le_of_eq hlength)
    (fun h => (trimmedName_ne 254).1 (htrim.symm.trans h)) "userName"
  rw [htrim] at hrequired
  obtain ⟨r, next, hpatch, hr, hwritten, hne⟩ :=
    patchUser_federatedUser hrequired (trimmedName_ne 254).2
  exact ⟨federatedProfile (storedName 254), federatedUser (storedName 254), r, next, hprofile, rfl,
    hpatch, hr, hwritten, hne⟩

end AuthMe.Scim

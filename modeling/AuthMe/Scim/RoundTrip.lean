import AuthMe.Scim.WriteBack

/-!
# Writing a User and reading it again

A User is split into columns and saved attributes when it is written, and put together from both when
it is read. `write_then_read` says for which bodies this gives every value back, and `patch_removes`
what is left of an attribute that a PATCH has removed.
-/

namespace AuthMe.Scim

open Passwords (Write putAttributes)
open Transition

/-! ## The stored row -/

/-- A part of the name as it is stored. -/
def storedPart (u : User) (key : String) : String :=
  Text.trim ((u.name.bind (·.get? key)).getD "")

/-- The display name as it is stored. -/
def storedDisplayName (u : User) : String :=
  let joined := String.intercalate " "
    ([storedPart u "givenName", storedPart u "familyName"].filter (· ≠ ""))
  orText (Text.trim (((u.text .displayName).text? <|> u.name.bind (·.get? "formatted")).getD
    joined)) u.userName

/-- The row holds the record as `createUser` and `replaceUser` write it. -/
structure Holds (lower : LowerCase) (u : User) (row : UserRow) : Prop where
  externalId : row.externalId = u.externalId.text?
  username : row.username = u.userName
  email : row.email = (coreUser lower u row.id).email
  displayName : row.displayName = storedDisplayName u
  givenName : row.givenName = storedPart u "givenName"
  familyName : row.familyName = storedPart u "familyName"
  enabled : row.enabled = u.active
  roles : row.roles = (coreUser lower u row.id).roles
  scim : row.scim = scimAttributes u

section Holds

variable {lower : LowerCase} {u : User}

theorem holds_newUser (id : Uuid) (passwordHash : String) :
    Holds lower u (Write.apply lower (.setExternalId u.externalId.text?)
      (newUser (coreUser lower u id) id passwordHash)) :=
  ⟨rfl, rfl, rfl, rfl, rfl, rfl, rfl, rfl, rfl⟩

theorem holds_replaceUser (row : UserRow) (passwordHash : String) :
    Holds lower u (Write.apply lower (.setExternalId u.externalId.text?)
      (Write.apply lower (.replaceUser (coreUser lower u row.id) passwordHash) row)) :=
  ⟨rfl, rfl, rfl, rfl, rfl, rfl, rfl, rfl, rfl⟩

end Holds

/-! ## What is read back -/

/-- Every value of the record is one of the other. -/
structure ReadsBack (u v : User) : Prop where
  userName : v.userName = u.userName
  externalId : ∀ s, u.externalId = .value s → v.externalId = .value s
  text : ∀ a s, u.text a = .value s → v.text a = .value s
  active : v.active = u.active
  name : ∀ k s, u.name.bind (·.get? k) = some s → v.name.bind (·.get? k) = some s
  multi : ∀ a items, u.multi a = some items → v.multi a = some items

/-- Nothing of the record is trimmed, replaced or filled in. -/
structure Lossless (u : User) : Prop where
  displayName : ∀ s, u.text .displayName = .value s → Text.trim s = s ∧ s ≠ ""
  formatted : ∀ s, u.name.bind (·.get? "formatted") = some s →
    match u.text .displayName with
    | .value d => orText (Text.trim d) u.userName = s
    | _ => Text.trim s = s ∧ s ≠ ""
  givenName : ∀ s, u.name.bind (·.get? "givenName") = some s → Text.trim s = s ∨ Text.trim s = ""
  familyName : ∀ s, u.name.bind (·.get? "familyName") = some s → Text.trim s = s ∨ Text.trim s = ""
  emails : u.multi .emails ≠ some []

section ReadsBack

variable {lower : LowerCase} {u : User} {row : UserRow}

/-- A trimmed text that stands for a name is the text, if and only if that has no space around it and
is not empty. -/
theorem orText_trim_iff {s username : String} (hname : GoodName username) :
    orText (Text.trim s) username = s ↔ Text.trim s = s ∧ s ≠ "" := by
  have hpresent : Text.trim username ≠ "" := hname.trimmed.symm ▸ hname.present
  have h := settledDisplayName_iff s hpresent
  rwa [hname.trimmed] at h

theorem storedDisplayName_of_value {d : String} (h : u.text .displayName = .value d) :
    storedDisplayName u = orText (Text.trim d) u.userName := by
  rw [storedDisplayName, h]
  rfl

theorem storedDisplayName_of_formatted {s : String} (h : (u.text .displayName).text? = none)
    (hs : u.name.bind (·.get? "formatted") = some s) :
    storedDisplayName u = orText (Text.trim s) u.userName := by
  rw [storedDisplayName, h, hs]
  rfl

/-- The part of the name that is read. -/
theorem name_rowAttributes (h : Holds lower u row) (k : String) :
    (rowAttributes row).name.bind (·.get? k) =
      if k = "formatted" then some (storedDisplayName u)
      else if k = "familyName" ∧ storedPart u k ≠ "" then some (storedPart u k)
      else if k = "givenName" ∧ storedPart u k ≠ "" then some (storedPart u k)
      else u.name.bind (·.get? k) := by
  show (rowName row).get? k = _
  rw [get?_rowName, h.displayName, h.familyName, h.givenName, h.scim]
  by_cases hfamily : k = "familyName"
  · subst hfamily
    rfl
  · by_cases hgiven : k = "givenName"
    · subst hgiven
      simp [scimAttributes]
    · simp [hfamily, hgiven, scimAttributes]

theorem storedPart_of_some {k s : String} (hs : u.name.bind (·.get? k) = some s) :
    storedPart u k = Text.trim s := by
  rw [storedPart, hs]
  rfl

/-- A part of the name that is stored in a column comes back. -/
theorem part_iff (h : Holds lower u row) {k s : String} (hk : k = "givenName" ∨ k = "familyName")
    (hs : u.name.bind (·.get? k) = some s) :
    (rowAttributes row).name.bind (·.get? k) = some s ↔ Text.trim s = s ∨ Text.trim s = "" := by
  have hread : (rowAttributes row).name.bind (·.get? k) =
      if Text.trim s ≠ "" then some (Text.trim s) else some s := by
    rw [name_rowAttributes h, storedPart_of_some hs, hs]
    rcases hk with rfl | rfl <;> simp
  rw [hread]
  by_cases hblank : Text.trim s = ""
  · simp [hblank]
  · simp [hblank]

theorem emails_rowAttributes (h : Holds lower u row) {items : List Item}
    (hitems : u.multi .emails = some items) :
    (rowAttributes row).multi .emails = some items ↔ items ≠ [] := by
  show some (savedItems (row.scim.multi .emails) [valueItem (some true) row.email]) = _ ↔ _
  rw [h.scim]
  show some (savedItems (u.multi .emails) _) = _ ↔ _
  rw [hitems]
  cases items with
  | nil => simp [savedItems]
  | cons item items => simp [savedItems]

theorem roles_rowAttributes (h : Holds lower u row) {items : List Item}
    (hitems : u.multi .roles = some items) : (rowAttributes row).multi .roles = some items := by
  show some (savedItems (row.scim.multi .roles) (row.roles.map (valueItem none))) = _
  rw [h.roles, h.scim]
  show some (savedItems (u.multi .roles) _) = _
  rw [hitems]
  cases items with
  | nil =>
    rw [coreUser, hitems]
    rfl
  | cons item items => rfl

theorem text_rowAttributes (h : Holds lower u row) {a : TextAttribute} (ha : a ≠ .displayName) :
    (rowAttributes row).text a = externalIdField (u.text a).text? := by
  cases a with
  | displayName => exact absurd rfl ha
  | _ =>
    simp only [rowAttributes, h.scim]
    rfl

/-- What is read back of a stored record. -/
theorem readsBack_iff (hname : GoodName u.userName) (h : Holds lower u row) :
    ReadsBack u (rowAttributes row) ↔ Lossless u := by
  have hformatted : (rowAttributes row).name.bind (·.get? "formatted") =
      some (storedDisplayName u) := by
    rw [name_rowAttributes h, if_pos rfl]
  have hdisplay : (rowAttributes row).text .displayName = .value (storedDisplayName u) := by
    rw [← h.displayName]
    rfl
  constructor
  · intro hread
    refine ⟨?_, ?_, ?_, ?_, ?_⟩
    · intro s hs
      have hback := hread.text _ s hs
      rw [hdisplay, storedDisplayName_of_value hs] at hback
      exact (orText_trim_iff hname).mp (Field.value.inj hback)
    · intro s hs
      have hback := hread.name _ s hs
      rw [hformatted] at hback
      split
      · rename_i d hd
        rw [← storedDisplayName_of_value hd]
        exact Option.some.inj hback
      · rename_i hno
        have hnone : (u.text .displayName).text? = none := by
          cases hfield : u.text .displayName with
          | value d => exact absurd hfield (hno d)
          | _ => rfl
        rw [storedDisplayName_of_formatted hnone hs] at hback
        exact (orText_trim_iff hname).mp (Option.some.inj hback)
    · exact fun s hs => (part_iff h (.inl rfl) hs).mp (hread.name _ s hs)
    · exact fun s hs => (part_iff h (.inr rfl) hs).mp (hread.name _ s hs)
    · intro hempty
      exact (emails_rowAttributes h hempty).mp (hread.multi _ _ hempty) rfl
  · intro hkept
    refine ⟨h.username, ?_, ?_, h.enabled, ?_, ?_⟩
    · intro s hs
      show externalIdField row.externalId = _
      rw [h.externalId, hs]
      rfl
    · intro a s hs
      by_cases ha : a = .displayName
      · subst ha
        rw [hdisplay, storedDisplayName_of_value hs,
          (orText_trim_iff hname).mpr (hkept.displayName s hs)]
      · rw [text_rowAttributes h ha, hs]
        rfl
    · intro k s hs
      by_cases hk : k = "formatted"
      · subst hk
        have hkeep := hkept.formatted s hs
        rw [hformatted]
        split at hkeep
        · rename_i d hd
          rw [storedDisplayName_of_value hd, hkeep]
        · rename_i hno
          have hnone : (u.text .displayName).text? = none := by
            cases hfield : u.text .displayName with
            | value d => exact absurd hfield (hno d)
            | _ => rfl
          rw [storedDisplayName_of_formatted hnone hs, (orText_trim_iff hname).mpr hkeep]
      · by_cases hgiven : k = "givenName"
        · subst hgiven
          exact (part_iff h (.inl rfl) hs).mpr (hkept.givenName s hs)
        · by_cases hfamily : k = "familyName"
          · subst hfamily
            exact (part_iff h (.inr rfl) hs).mpr (hkept.familyName s hs)
          · rw [name_rowAttributes h, if_neg hk, if_neg (fun hand => hfamily hand.1),
              if_neg (fun hand => hgiven hand.1)]
            exact hs
    · intro a items hitems
      cases a with
      | emails =>
        refine (emails_rowAttributes h hitems).mpr fun hempty => hkept.emails ?_
        rw [hitems, hempty]
      | roles => exact roles_rowAttributes h hitems
      | _ =>
        simp only [rowAttributes, h.scim]
        exact hitems

end ReadsBack

/-! ## Requests -/

section Requests

variable {c : Config} {s s' : Store}

theorem create_holds {id : Uuid} {disabledPasswordHash hash : String} {body : Value}
    {attributes : User} (hattributes : normalizeUser c.lower body none = .ok attributes)
    (h : (UserRequest.create id disabledPasswordHash hash body).perform c s = some s') :
    ∃ row, s'.tables.users.get? id = some row ∧ Holds c.lower attributes row := by
  obtain ⟨attributes', hattributes', hrest⟩ := Option.bind_eq_some_iff.mp h
  rw [hattributes] at hattributes'
  cases hattributes'
  obtain ⟨passwordHash, -, hcommit⟩ := Option.bind_eq_some_iff.mp hrest
  obtain ⟨_, hexec⟩ := committed_eq_some hcommit
  obtain ⟨-, hchanged⟩ := createUser_changed hexec
  have hrow := hchanged.users id
  rw [if_pos rfl] at hrow
  have hinserted : (s.tables.users.insert (newUser (coreUser c.lower attributes id) id
      (passwordHash.getD disabledPasswordHash))).get? id = some (newUser
        (coreUser c.lower attributes id) id (passwordHash.getD disabledPasswordHash)) := by
    rw [Table.get?_insert]
    exact if_pos rfl
  refine ⟨_, hrow.trans (congrArg (Option.map _) hinserted), holds_newUser id _⟩

theorem put_holds {row : UserRow} {id : String} (hrow : findRow s id = some row)
    {ifMatch : List String} {hash : String} {body : Value} {attributes : User}
    (hattributes : putAttributes c.lower ifMatch body row = some attributes)
    (h : (UserRequest.put id ifMatch hash body).perform c s = some s') :
    ∃ row', findRow s' id = some row' ∧ Holds c.lower attributes row' := by
  obtain ⟨found, hfound, hrest⟩ := Option.bind_eq_some_iff.mp h
  cases hfound.symm.trans hrow
  obtain ⟨attributes', hattributes', hwrite⟩ := Option.bind_eq_some_iff.mp hrest
  cases hattributes'.symm.trans hattributes
  obtain ⟨u, hu, hget⟩ := Option.bind_eq_some_iff.mp hrow
  have hid : row.id = u := Table.keyOf_of_get? hget
  subst hid
  obtain ⟨passwordHash, -, hafter⟩ := writeBack_row hget hwrite
  refine ⟨_, ?_, holds_replaceUser row (passwordHash.getD row.passwordHash)⟩
  rw [findRow, hu]
  exact hafter

/-- **Round trip.** A User that is created or replaced is read with every value of the body, as it was
normalised, if and only if nothing of it is trimmed, replaced or filled in. -/
theorem write_then_read (c : Config) {s s' : Store} :
    (∀ id disabledPasswordHash hash body attributes,
      normalizeUser c.lower body none = .ok attributes →
      (UserRequest.create id disabledPasswordHash hash body).perform c s = some s' →
      ∃ row, s'.tables.users.get? id = some row ∧
        (ReadsBack attributes (rowAttributes row) ↔ Lossless attributes)) ∧
    ∀ id ifMatch hash body row attributes, findRow s id = some row →
      putAttributes c.lower ifMatch body row = some attributes →
      (UserRequest.put id ifMatch hash body).perform c s = some s' →
      ∃ row', findRow s' id = some row' ∧
        (ReadsBack attributes (rowAttributes row') ↔ Lossless attributes) := by
  constructor
  · intro id disabledPasswordHash hash body attributes hattributes h
    obtain ⟨row, hrow, hholds⟩ := create_holds hattributes h
    have hnormal := normalizeUser_normal (by simp) hattributes
    exact ⟨row, hrow, readsBack_iff hnormal.userName hholds⟩
  · intro id ifMatch hash body row attributes hrow hattributes h
    obtain ⟨row', hrow', hholds⟩ := put_holds hrow hattributes h
    have hnormal : attributes.Normal := by
      unfold putAttributes at hattributes
      split at hattributes
      · exact normalizeUser_normal (by simp) (toOption_eq_some hattributes)
      · cases hattributes
    exact ⟨row', hrow', readsBack_iff hnormal.userName hholds⟩

end Requests

/-! ## Removal -/

/-- The last that the operations do to the attribute is to remove it. -/
def RemovesLast (lower : LowerCase) (body : Value) (a : UserAttribute) : Prop :=
  ∃ past c rest, changes lower (canonicalUserAttribute lower) body = past ++ c :: rest ∧
    c.path = ⟨a, none, none⟩ ∧ c.op = .remove ∧ ∀ d ∈ rest, d.path.attr ≠ a

/-- The operations leave the user name and the name alone. -/
def KeepsNames (lower : LowerCase) (body : Value) : Prop :=
  ∀ c ∈ changes lower (canonicalUserAttribute lower) body,
    c.path.attr ≠ .userName ∧ c.path.attr ≠ .name

/-- What is shown of a User without a display name: the formatted name, or the given and the family
name. -/
def shownName (row : UserRow) : String :=
  let joined := String.intercalate " " ([row.givenName, row.familyName].filter (· ≠ ""))
  orText (Text.trim ((row.scim.name.bind (·.get? "formatted")).getD joined)) row.username

/-- What is read of an attribute after it was removed. The display name comes back from the name that
the operations leave, so from the old one where they leave the names alone; the column of the e-mail
address is filled in, and the name keeps its formatted part. -/
def AfterRemoval (lower : LowerCase) (body : Value) (before after : UserRow) : UserAttribute → Prop
  | .userName => False
  | .externalId => (rowAttributes after).externalId = .missing
  | .active => (rowAttributes after).active = true
  | .password => (rowAttributes after).password = .missing
  | .name => ∀ k, (rowAttributes after).name.bind (·.get? k) =
      if k = "formatted" then some after.displayName else none
  | .text .displayName => (rowAttributes after).text .displayName = .value (shownName after) ∧
      (KeepsNames lower body → (rowAttributes after).text .displayName =
        .value (orText (Text.trim before.displayName) (Text.trim before.username)))
  | .text a => (rowAttributes after).text a = .missing
  | .multi .emails => (rowAttributes after).multi .emails =
      some [valueItem (some true) (loginAddress lower after.username after.id)]
  | .multi .roles => (rowAttributes after).multi .roles = some []
  | .multi a => (rowAttributes after).multi a = none

section Removal

variable {lower : LowerCase} {row : UserRow} {body : Value} {a : UserAttribute}

theorem setAttribute_remove {α : Type} [DecidableEq α] {isMulti : α → Bool} {r r' : Resource α}
    {a : α} {value : Value} (h : setAttribute isMulti r ⟨a, none, none⟩ .remove value = .ok r') :
    r' a = none := by
  have hmulti : ∀ {r' : Resource α}, setMulti r ⟨a, none, none⟩ .remove value = .ok r' →
      r' a = none := by
    intro r' h
    simp only [setMulti] at h
    rw [if_neg (by simp)] at h
    split at h
    · cases h
      exact Function.update_self ..
    · cases h
  have hsimple : ∀ {r' : Resource α}, setSimple r ⟨a, none, none⟩ .remove value = .ok r' →
      r' a = none := by
    intro r' h
    obtain ⟨v, rfl, hwhole, -⟩ := setSimple_ok h
    rw [Function.update_self, hwhole rfl, if_pos rfl]
  unfold setAttribute at h
  split at h
  · exact hmulti h
  · exact hsimple h

theorem removed_of_removesLast {r r' : Resource UserAttribute}
    (h : applyUserPatch lower r body = .ok r') (hlast : RemovesLast lower body a) : r' a = none := by
  obtain ⟨past, c, rest, hchanges, hpath, hop, hrest⟩ := hlast
  have hpatched := patched_of_applyPatch h
  rw [show changes lower (canonicalUserAttribute lower) body = past ++ c :: rest from hchanges]
    at hpatched
  unfold Patched at hpatched
  rw [List.map_append, List.map_cons] at hpatched
  obtain ⟨m, m', -, -, hstep, hafter⟩ := Run.split_at hpatched
  have hset := patchStep_eq_some.mp hstep
  rw [hpath, hop] at hset
  have hkeep : r' a = m' a := Patched.attribute hafter hrest
  rw [hkeep, setAttribute_remove hset]

/-- A display name that was removed comes back. -/
theorem storedDisplayName_removed {r : Resource UserAttribute} {next : User}
    (hrow : row.scim.Written) (hpatch : applyUserPatch lower (rowAttributes row).toResource body = .ok r)
    (hnext : normalizeUserSource r none = .ok next) (hnames : KeepsNames lower body)
    (hmissing : next.text .displayName = .missing) :
    storedDisplayName next =
      orText (Text.trim row.displayName) (Text.trim row.username) := by
  obtain ⟨huserName, -, -, -, -, hname, -⟩ := normalizeUserSource_ok hnext
  have hpatched := patched_of_applyPatch hpatch
  rw [hpatched.attribute fun c hc => (hnames c hc).1] at huserName
  have htrim : next.userName = Text.trim row.username := requiredName_accepts huserName
  rw [normalizeName, hpatched.attribute fun c hc => (hnames c hc).2] at hname
  obtain ⟨c, hfound, heq⟩ := map_eq_ok hname
  have hformatted : next.name.bind (·.get? "formatted") = some row.displayName := by
    rw [← heq]
    show c.get? "formatted" = _
    rw [normalizeComplex_toValue (rowName_proto hrow) hfound, get?_rowName, if_pos rfl]
  rw [storedDisplayName_of_formatted (by rw [hmissing]; rfl) hformatted, htrim]

/-- A record without a display name is shown under its name. -/
theorem storedDisplayName_of_missing {next : User} {row' : UserRow}
    (hmissing : next.text .displayName = .missing) (h : Holds lower next row') :
    storedDisplayName next = shownName row' := by
  rw [storedDisplayName, shownName, hmissing, h.givenName, h.familyName, h.username, h.scim]
  rfl

theorem lower_blank (lower : LowerCase) : lower (Text.trim "") = "" := by
  rw [lower.ascii _ (by decide)]
  decide

/-- What is read after the write. -/
theorem afterRemoval_of_holds {r : Resource UserAttribute} {next : User} {row' : UserRow}
    (hrow : row.scim.Written) (hpatch : applyUserPatch lower (rowAttributes row).toResource body = .ok r)
    (hnext : normalizeUserSource r none = .ok next) (hnone : r a = none)
    (h : Holds lower next row') : AfterRemoval lower body row row' a := by
  obtain ⟨huserName, hexternalId, htext, hactive, -, hname, hmulti⟩ := normalizeUserSource_ok hnext
  have htexts : ∀ t, r (.text t) = none → next.text t = .missing := by
    intro t ht
    have hfield := htext t
    rw [fieldIn, ht] at hfield
    exact (Except.ok.inj hfield).symm
  have hitems : ∀ m, r (.multi m) = none → next.multi m = none := by
    intro m hm
    have hfound := hmulti m
    rw [normalizeAttribute, hm] at hfound
    exact (Except.ok.inj hfound).symm
  cases a with
  | userName =>
    rw [hnone] at huserName
    cases huserName
  | externalId =>
    rw [fieldIn, hnone] at hexternalId
    show externalIdField row'.externalId = _
    rw [h.externalId, ← Except.ok.inj hexternalId]
    rfl
  | active =>
    rw [normalizeActive, hnone] at hactive
    exact h.enabled.trans (Except.ok.inj hactive).symm
  | password => rfl
  | name =>
    rw [normalizeName, hnone] at hname
    have hmissing : next.name = none := (Except.ok.inj hname).symm
    have hpart : ∀ k, storedPart next k = "" := by
      intro k
      rw [storedPart, hmissing]
      show Text.trim "" = ""
      decide
    intro k
    rw [name_rowAttributes h, hpart, hmissing, h.displayName]
    simp
  | text t =>
    by_cases ht : t = .displayName
    · subst ht
      have hread : (rowAttributes row').text .displayName = .value (storedDisplayName next) := by
        rw [← h.displayName]
        rfl
      refine ⟨?_, fun hnames => ?_⟩
      · rw [hread, storedDisplayName_of_missing (htexts _ hnone) h]
      · rw [hread, storedDisplayName_removed hrow hpatch hnext hnames (htexts _ hnone)]
    · have hread := text_rowAttributes h ht
      rw [htexts t hnone] at hread
      cases t with
      | displayName => exact absurd rfl ht
      | _ => exact hread
  | multi m =>
    have hmissing := hitems m hnone
    cases m with
    | emails =>
      show some (savedItems (row'.scim.multi .emails) [valueItem (some true) row'.email]) = _
      have hemail : row'.email = loginAddress lower row'.username row'.id := by
        have hblank : lower (primaryValue (next.multi .emails)) = "" := by
          rw [hmissing]
          exact lower_blank lower
        rw [h.email, h.username, coreUser]
        simp only [hblank]
        rfl
      rw [h.scim]
      show some (savedItems (next.multi .emails) _) = _
      rw [hmissing, hemail]
      rfl
    | roles =>
      show some (savedItems (row'.scim.multi .roles) (row'.roles.map (valueItem none))) = _
      rw [h.roles, h.scim]
      show some (savedItems (next.multi .roles) _) = _
      rw [coreUser, hmissing]
      rfl
    | _ =>
      show row'.scim.multi _ = none
      rw [h.scim]
      exact hmissing

/-- What is read where the operations have left the record as it was. -/
theorem afterRemoval_of_same {r : Resource UserAttribute} {next : User}
    (hnext : normalizeUserSource r none = .ok next) (hnone : r a = none)
    (hsame : next.deepEquals (rowAttributes row) = true) : AfterRemoval lower body row row a := by
  obtain ⟨huserName, hexternalId, htext, hactive, -, hname, hmulti⟩ := normalizeUserSource_ok hnext
  obtain ⟨-, hsameId, hsameText, hsameActive, -, hsameName, hsameMulti⟩ :=
    User.deepEquals_iff.mp hsame
  cases a with
  | userName =>
    rw [hnone] at huserName
    cases huserName
  | externalId =>
    rw [fieldIn, hnone] at hexternalId
    exact hsameId.symm.trans (Except.ok.inj hexternalId).symm
  | active =>
    rw [normalizeActive, hnone] at hactive
    exact hsameActive.symm.trans (Except.ok.inj hactive).symm
  | password => rfl
  | name =>
    rw [normalizeName, hnone] at hname
    rw [← Except.ok.inj hname] at hsameName
    cases hsameName
  | text t =>
    have hfield := htext t
    rw [fieldIn, hnone] at hfield
    have hmissing := (hsameText t).symm.trans (Except.ok.inj hfield).symm
    cases t with
    | displayName => cases hmissing
    | _ => exact hmissing
  | multi m =>
    have hfound := hmulti m
    rw [normalizeAttribute, hnone] at hfound
    have hshown := hsameMulti m
    rw [← Except.ok.inj hfound] at hshown
    cases m with
    | emails => cases hshown
    | roles => cases hshown
    | _ =>
      rcases sameOption_iff.mp hshown with ⟨-, hmissing⟩ | ⟨_, _, hsome, -⟩
      · exact hmissing
      · cases hsome

/-- **Removal.** What is read of an attribute of a User after a PATCH whose operations have removed
it. -/
theorem patch_removes (c : Config) {s s' : Store} (hs : Reachable c s) {id : String} {row : UserRow}
    (hrow : findRow s id = some row) {ifMatch : List String} {hash : String} {body : Value}
    {a : UserAttribute} (hlast : RemovesLast c.lower body a)
    (hpatch : (UserRequest.patch id ifMatch hash body).perform c s = some s') :
    ∃ row', findRow s' id = some row' ∧ AfterRemoval c.lower body row row' a := by
  obtain ⟨u, hu, hget⟩ := Option.bind_eq_some_iff.mp hrow
  have hid : row.id = u := Table.keyOf_of_get? hget
  subst hid
  have hwritten := hs.allWritten row.id row hget
  obtain ⟨found, hfound, hrest⟩ := Option.bind_eq_some_iff.mp hpatch
  cases hfound.symm.trans hrow
  split at hrest
  · split at hrest
    · cases hrest
    · rename_i hnothing
      obtain ⟨r, next, hr, hnext, hout⟩ := patchUser_ok hnothing
      split at hout
      · rename_i hsame
        cases hrest
        exact ⟨row, hrow, afterRemoval_of_same hnext (removed_of_removesLast hr hlast) hsame⟩
      · cases hout
    · rename_i attributes hsome
      obtain ⟨r, next, hr, hnext, hout⟩ := patchUser_ok hsome
      split at hout
      · cases hout
      · cases hout
        obtain ⟨passwordHash, -, hafter⟩ := writeBack_row hget hrest
        refine ⟨_, ?_, afterRemoval_of_holds hwritten hr hnext (removed_of_removesLast hr hlast)
          (holds_replaceUser row (passwordHash.getD row.passwordHash))⟩
        rw [findRow, hu]
        exact hafter
  · cases hrest

end Removal

/-! ### Display names -/

def adaBody : Value := .object [("userName", .string "ada"), ("displayName", .string "Ada")]

theorem write_then_read_ada : ∃ s' attributes row,
    normalizeUser .onlyAscii adaBody none = .ok attributes ∧
      (UserRequest.create someUser.id "" "" adaBody).perform someConfig emptyStore = some s' ∧
      s'.tables.users.get? someUser.id = some row ∧ ReadsBack attributes (rowAttributes row) := by
  obtain ⟨s', attributes, hattributes, hcreate, hdisplay, hname, hemails⟩ : ∃ s' attributes,
      normalizeUser .onlyAscii adaBody none = .ok attributes ∧
        (UserRequest.create someUser.id "" "" adaBody).perform someConfig emptyStore = some s' ∧
        attributes.text .displayName = .value "Ada" ∧ attributes.name = none ∧
        attributes.multi .emails = none := ⟨_, _, rfl, rfl, rfl, rfl, rfl⟩
  obtain ⟨row, hrow, hread⟩ :=
    (write_then_read someConfig).1 someUser.id "" "" adaBody attributes hattributes hcreate
  refine ⟨s', attributes, row, hattributes, hcreate, hrow, hread.mpr ?_⟩
  refine ⟨?_, ?_, ?_, ?_, by rw [hemails]; simp⟩
  · intro s hs
    rw [hdisplay] at hs
    cases hs
    decide
  all_goals
    intro s hs
    rw [hname] at hs
    cases hs

def removedDisplayName : Value := .object [("schemas", .array [.string SCIM_URNS.patchOp]),
  ("Operations", .array [.object [("op", .string "remove"), ("path", .string "displayName")]])]

/-- A display name that is removed is read as before. -/
theorem patch_removes_displayName : ∃ s s' row row', Reachable someConfig s ∧
    findRow s someUser.id.text = some row ∧
    (UserRequest.patch someUser.id.text [] "" removedDisplayName).perform someConfig s = some s' ∧
    findRow s' someUser.id.text = some row' ∧
    (rowAttributes row').text .displayName = (rowAttributes row).text .displayName := by
  obtain ⟨s, s', row, hcreate, hrow, haccount, hpatch⟩ : ∃ s s' row,
      requestStep someConfig emptyStore (.createAccount someUser.id verifiedAccount) =
        some (s, ()) ∧
      findRow s someUser.id.text = some row ∧
      row = accountRow .onlyAscii someUser.id verifiedAccount ∧
      (UserRequest.patch someUser.id.text [] "" removedDisplayName).perform someConfig s =
        some s' := ⟨_, _, _, rfl, rfl, rfl, rfl⟩
  have hreachable : Reachable someConfig s := ⟨emptyStore, _, rfl, .single trivial hcreate⟩
  have hchanges : changes .onlyAscii (canonicalUserAttribute .onlyAscii) removedDisplayName =
      [⟨⟨.text .displayName, none, none⟩, .remove, .undefined⟩] := rfl
  have hlast : RemovesLast .onlyAscii removedDisplayName (.text .displayName) :=
    ⟨[], _, [], hchanges, rfl, rfl, by simp⟩
  have hkeeps : KeepsNames .onlyAscii removedDisplayName := by
    intro c hc
    rw [hchanges] at hc
    rw [List.mem_singleton.mp hc]
    decide
  obtain ⟨row', hrow', hafter⟩ := patch_removes someConfig hreachable hrow hlast hpatch
  refine ⟨s, s', row, row', hreachable, hrow, hpatch, hrow', (hafter.2 hkeeps).trans ?_⟩
  rw [haccount]
  decide

end AuthMe.Scim

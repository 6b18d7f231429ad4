import AuthMe.Scim.NoOp

/-!
# The columns of a record

What `normalizeUser` leaves of the attributes that a record already has, and what `coreUser` reads of
a record: the user name, the display name, the name, the e-mail addresses, the roles and whether it is
active. Two records that agree on these are stored in the same columns.
-/

namespace AuthMe.Scim

/-! ## Accepted values -/

theorem map_eq_ok {ε α β : Type} {x : Except ε α} {f : α → β} {b : β}
    (h : x.map f = .ok b) : ∃ a, x = .ok a ∧ f a = b := by
  cases x with
  | error e => cases h
  | ok a => exact ⟨a, rfl, Except.ok.inj h⟩

/-- What an accepted entry is, for a loop that has accepted all. -/
theorem foldlM_accepts {β ε : Type} {f : β → String × Value → Except ε β}
    (good : String × Value → Prop)
    (hstep : ∀ acc entry acc', f acc entry = .ok acc' → good entry)
    {entries : List (String × Value)} {acc acc' : β} (h : entries.foldlM f acc = .ok acc') :
    ∀ entry ∈ entries, good entry := by
  induction entries generalizing acc with
  | nil => simp
  | cons entry rest ih =>
    rw [List.foldlM_cons, bind_eq_ok] at h
    obtain ⟨m, hm, hrest⟩ := h
    rw [List.forall_mem_cons]
    exact ⟨hstep _ _ _ hm, ih hrest⟩

theorem text_accepts {s name : String} {max : Nat} {found : Option String}
    (h : text (.string s) name false max = .ok found) :
    found = some s ∧ Text.length s ≤ max := by
  unfold text at h
  rw [if_neg (by simp [Value.isNullish])] at h
  dsimp only at h
  split at h
  · cases h
  · rename_i hok
    cases h
    simp only [Bool.false_and, Bool.false_or, decide_eq_true_eq] at hok
    exact ⟨rfl, Nat.le_of_not_lt hok⟩

/-- A complex value that is accepted is left as it is. -/
theorem normalizeComplex_toValue {c c' : Complex} {name : String}
    (hproto : c.get? "__proto__" = none) (h : normalizeComplex c.toValue name = .ok c') :
    ∀ k, c'.get? k = c.get? k := by
  have haccepted : ∀ entry ∈ c.entries.map fun entry => (entry.1, Value.string entry.2),
      ∀ s, entry.2 = .string s → Text.length s ≤ 2048 := by
    refine foldlM_accepts (fun entry => ∀ s, entry.2 = .string s → Text.length s ≤ 2048)
      ?_ h
    rintro acc ⟨k, v⟩ acc' hentry s rfl
    unfold complexEntry at hentry
    rw [if_neg (by simp [Value.isNullish])] at hentry
    dsimp only at hentry
    split at hentry
    · cases hentry
    · rename_i hok
      exact Nat.le_of_not_lt hok
  have hgood : GoodTexts c := by
    refine ⟨hproto, ?_⟩
    intro k s hs
    exact haccepted (k, .string s)
      (List.mem_map.mpr ⟨(k, s), OrderedMap.mem_entries_iff.mpr hs, rfl⟩) s rfl
  obtain ⟨c'', hc'', hsame⟩ := normalizeComplex_object name hgood (isObject_complex c)
  rw [h] at hc''
  cases hc''
  exact hsame

/-- No sub-attribute of the item is called like one that cannot be a text. -/
structure Item.Proper (item : Item) : Prop where
  proto : item.texts.get? "__proto__" = none
  primary : item.texts.get? "primary" = none

theorem Item.Good.proper {item : Item} (h : item.Good) : item.Proper := ⟨h.proto, h.primary⟩

theorem proper_valueItem (primary : Option Bool) (value : String) :
    (valueItem primary value).Proper := by
  constructor <;> simp [valueItem, OrderedMap.get?_set]

/-- An item that is accepted is a good one. -/
theorem Item.Proper.good {item item' : Item} {place : String} (hproper : item.Proper)
    (h : normalizeItem place item.toValue = .ok item') : item.Good := by
  have haccepted : ∀ entry ∈ (item.primary.map fun b => ("primary", Value.bool b)).toList ++
      item.texts.entries.map fun entry => (entry.1, Value.string entry.2),
      ∀ s, entry.2 = .string s → entry.1 ≠ "primary" → Text.length s ≤ 2048 := by
    refine foldlM_accepts
      (fun entry => ∀ s, entry.2 = .string s → entry.1 ≠ "primary" →
        Text.length s ≤ 2048) ?_ h
    rintro acc ⟨k, v⟩ acc' hentry s rfl hk
    unfold itemEntry at hentry
    rw [if_neg (by simp [Value.isNullish]), if_neg hk] at hentry
    split at hentry
    · cases hentry
    · rename_i htext
      cases (text_accepts htext).1
    · rename_i htext
      exact (text_accepts htext).2
  refine ⟨⟨hproper.proto, ?_⟩, hproper.primary⟩
  intro k s hs
  have hk : k ≠ "primary" := by
    rintro rfl
    exact absurd (hs.symm.trans hproper.primary) (by simp)
  exact haccepted (k, .string s) (List.mem_append_right _
    (List.mem_map.mpr ⟨(k, s), OrderedMap.mem_entries_iff.mpr hs, rfl⟩)) s rfl hk

theorem normalizeItems_accepts {name : String} {index : Nat} {items items' : List Item}
    (hproper : ∀ item ∈ items, item.Proper)
    (h : normalizeItems name index (items.map Item.toValue) = .ok items') :
    ∀ item ∈ items, item.Good := by
  induction items generalizing index items' with
  | nil => simp
  | cons item items ih =>
    rw [List.map_cons, normalizeItems, bind_eq_ok] at h
    obtain ⟨item', hitem, h⟩ := h
    rw [bind_eq_ok] at h
    obtain ⟨rest, hrest, -⟩ := h
    rw [List.forall_mem_cons] at hproper ⊢
    exact ⟨hproper.1.good hitem, ih hproper.2 hrest⟩

/-- Items that are accepted are left as they are. -/
theorem normalizeMulti_toValue {name : String} {items items' : List Item}
    (hproper : ∀ item ∈ items, item.Proper)
    (h : normalizeMulti (.array (items.map Item.toValue)) name = .ok items') :
    sameItems items' items = true := by
  rw [normalizeMulti, bind_eq_ok] at h
  obtain ⟨found, hfound, h⟩ := h
  split at h
  · cases h
  · rename_i hcount
    cases h
    have hgood := normalizeItems_accepts hproper hfound
    have hobjects : AreObjects (items.map Item.toValue) items := by
      clear hfound hcount hproper
      induction items with
      | nil => exact .nil
      | cons item items ih =>
        rw [List.forall_mem_cons] at hgood
        exact .cons (isObject_item hgood.1) (ih hgood.2)
    obtain ⟨items'', hitems'', hsame⟩ := normalizeItems_objects name 0 hgood hobjects
    rw [hfound] at hitems''
    cases hitems''
    exact hsame

/-- The parts of a normalised record. -/
theorem normalizeUserSource_ok {source : Resource UserAttribute} {existing : Option String}
    {u : User} (h : normalizeUserSource source existing = .ok u) :
    requiredName ((source .userName).getD .undefined) "userName" = .ok u.userName ∧
      fieldIn source .externalId 256 = .ok u.externalId ∧
      (∀ a, fieldIn source (.text a) = .ok (u.text a)) ∧
      normalizeActive source = .ok u.active ∧
      normalizePassword source existing = .ok u.password ∧ normalizeName source = .ok u.name ∧
      ∀ a, normalizeAttribute source a = .ok (u.multi a) := by
  simp only [normalizeUserSource, bind_eq_ok] at h
  obtain ⟨userName, huserName, externalId, hexternalId, texts, htexts, active, hactive, password,
    hpassword, name, hname, multi, hmulti, h⟩ := h
  cases h
  exact ⟨huserName, hexternalId, fun a => mapM_collected .missing htexts a a.mem_all, hactive,
    hpassword, hname, fun a => mapM_collected none hmulti a a.mem_all⟩

/-! ## What `coreUser` reads -/

/-- The records agree on what the columns are computed from. -/
structure SameCore (u v : User) : Prop where
  userName : u.userName = v.userName
  displayName : (u.text .displayName).text? = (v.text .displayName).text?
  active : u.active = v.active
  name : ∀ k, u.name.bind (·.get? k) = v.name.bind (·.get? k)
  emails : sameItems ((u.multi .emails).getD []) ((v.multi .emails).getD []) = true
  roles : sameItems ((u.multi .roles).getD []) ((v.multi .roles).getD []) = true

theorem texts_of_deepEquals {i j : Item} (h : i.deepEquals j = true) (k : String) :
    i.texts.get? k = j.texts.get? k := by
  rw [Item.deepEquals, Bool.and_eq_true, sameEntries_iff] at h
  exact h.2 k

theorem primary_of_deepEquals {i j : Item} (h : i.deepEquals j = true) : i.primary = j.primary := by
  rw [Item.deepEquals, Bool.and_eq_true, decide_eq_true_eq] at h
  exact h.1

theorem value?_of_deepEquals {i j : Item} (h : i.deepEquals j = true) : i.value? = j.value? :=
  texts_of_deepEquals h "value"

theorem find?_of_sameItems {β : Type} {items items' : List Item}
    (h : sameItems items items' = true) {p : Item → Bool} {f : Item → Option β}
    (hp : ∀ i j : Item, i.deepEquals j = true → p i = p j)
    (hf : ∀ i j : Item, i.deepEquals j = true → f i = f j) :
    (items.find? p).bind f = (items'.find? p).bind f := by
  rw [sameItems_iff] at h
  induction h with
  | nil => rfl
  | @cons i j _ _ hfirst _ ih =>
    rw [List.find?_cons, List.find?_cons, hp i j hfirst]
    split
    · exact hf i j hfirst
    · exact ih

theorem map_of_sameItems {β : Type} {items items' : List Item} (h : sameItems items items' = true)
    {f : Item → β} (hf : ∀ i j : Item, i.deepEquals j = true → f i = f j) :
    items.map f = items'.map f := by
  rw [sameItems_iff] at h
  induction h with
  | nil => rfl
  | @cons i j _ _ hfirst _ ih => rw [List.map_cons, List.map_cons, hf i j hfirst, ih]

theorem primaryValue_congr {items items' : Option (List Item)}
    (h : sameItems (items.getD []) (items'.getD []) = true) :
    primaryValue items = primaryValue items' := by
  have hvalue : ∀ i j : Item, i.deepEquals j = true → i.value? = j.value? :=
    fun i j hij => value?_of_deepEquals hij
  have hprimary := find?_of_sameItems h (f := Item.value?)
    (p := fun item => item.primary = some true && item.value?.isSome)
    (fun i j hij => by rw [primary_of_deepEquals hij, hvalue i j hij]) hvalue
  have hfirst := find?_of_sameItems h (f := Item.value?) (p := fun item => item.value?.isSome)
    (fun i j hij => by rw [hvalue i j hij]) hvalue
  rw [primaryValue, primaryValue, hprimary, hfirst]

/-- The columns of two records that agree. -/
theorem coreUser_congr (lower : LowerCase) {u v : User} (h : SameCore u v) (id : Uuid) :
    coreUser lower u id = { coreUser lower v id with extra := scimAttributes u } := by
  have hprimary := primaryValue_congr h.emails
  have hverified := find?_of_sameItems h.emails (f := fun item => item.texts.get? "verified")
    (p := fun item => (item.value?.map lower) = some (coreUser lower v id).email)
    (fun i j hij => by rw [value?_of_deepEquals hij]) (fun i j hij => texts_of_deepEquals hij _)
  have hroles := map_of_sameItems h.roles
    (f := fun role => Text.trim ((role.value? <|> role.texts.get? "display").getD ""))
    (fun i j hij => by rw [value?_of_deepEquals hij, texts_of_deepEquals hij])
  rw [coreUser] at hverified ⊢
  rw [coreUser]
  simp only [h.userName, h.displayName, h.active, h.name, hprimary, hroles] at hverified ⊢
  rw [hverified]

end AuthMe.Scim

import AuthMe.Scim.Membership
import AuthMe.Scim.Listing

/-!
# The two repositories answer a list

A listing depends on the identifiers of what was selected, in any order (`listing`). What is left
is to compare the test of a record with the test of the row that stores it, and to see that the
join of `listGroups` has one row for each group.
-/

namespace AuthMe.Scim

/-! ## A page of identifiers -/

instance : Std.Total byId := ⟨fun a b => le_total a.text.toList b.text.toList⟩

instance : IsTrans Uuid byId :=
  ⟨fun a b c => le_trans (a := a.text.toList) (b := b.text.toList) (c := c.text.toList)⟩

instance : Std.Antisymm byId where
  antisymm a b hab hba := by
    have hle : a.text.toList ≤ b.text.toList := hab
    have hge : b.text.toList ≤ a.text.toList := hba
    have h := String.toList_injective (le_antisymm hle hge)
    cases a
    cases b
    cases h
    rfl

def listing (ids : List Uuid) (p : Page) : Listing :=
  ⟨ids.length, ((ids.insertionSort byId).drop (p.startIndex - 1)).take p.count⟩

theorem listing_congr {ids ids' : List Uuid} (h : ids.Perm ids') (p : Page) :
    listing ids p = listing ids' p := by
  have hsort : ids.insertionSort byId = ids'.insertionSort byId := by
    apply List.Perm.eq_of_pairwise' (List.pairwise_insertionSort byId ids)
      (List.pairwise_insertionSort byId ids')
    exact (List.perm_insertionSort byId ids).trans (h.trans (List.perm_insertionSort byId ids').symm)
  rw [listing, listing, hsort, h.length_eq]

theorem map_sorted {ρ : Type} (idOf : ρ → Uuid) (rows : List ρ) :
    (rows.insertionSort fun a b => byId (idOf a) (idOf b)).map idOf =
      (rows.map idOf).insertionSort byId :=
  List.map_insertionSort (fun a b => byId (idOf a) (idOf b)) byId idOf rows
    fun _ _ _ _ => Iff.rfl

theorem page_eq_listing (lower : LowerUnits) (resources : List Listed) (filter : Option Filter)
    (p : Page) : page lower resources filter p =
      listing ((resources.filter fun r => matchesFilter lower r filter).map Listed.id) p := by
  simp only [page, listing, List.length_insertionSort, List.length_map, List.map_take,
    List.map_drop, map_sorted]

theorem limited_eq_listing {ρ : Type} (idOf : ρ → Uuid) (selected : List ρ) (p : Page) :
    limited idOf selected selected.length selected.length p = listing (selected.map idOf) p := by
  simp only [limited, listing, ite_self, List.length_map, List.map_take, List.map_drop, map_sorted]

/-! ## The two tests of a resource -/

/-- What the condition of the statement says of the resource in the row. -/
def statementTest (lower : LowerUnits) (r : Listed) (f : Filter) : Bool :=
  match f.attr with
  | .membersValue => r.members.any fun value => value = Text.wellFormed f.value
  | .active => (r.active.map fun b => if b then "true" else "false") = some (Text.wellFormed f.value)
  | .userName => r.userName.map lowerKey = some (Text.wellFormed (lower f.value))
  | .displayName => r.displayName.map lowerKey = some (Text.wellFormed (lower f.value))
  | .id => r.id.text = Text.wellFormed f.value
  | .externalId => r.externalId = some (Text.wellFormed f.value)

/-- The resource has the attribute, if it is one that every resource of its type has; names and
identifiers are ASCII. -/
def Listed.HasPlain (r : Listed) : FilterAttribute → Prop
  | .userName => ∃ s, r.userName = some s ∧ Text.isAscii s = true
  | .displayName => ∃ s, r.displayName = some s ∧ Text.isAscii s = true
  | .active => ∃ b, r.active = some b
  | .membersValue => ∀ value ∈ r.members, Text.isAscii value = true
  | .id | .externalId => True

/-- The filters on which the two tests agree about the resources: no U+0000 in the text, `active`
compared with `true` or `false` in lower case unless no resource is selected, `externalId` compared
with the empty text only if every resource has one, and with text that is well formed unless no
resource has the text that it is encoded as. -/
structure Alike (lower : LowerUnits) (resources : List Listed) (f : Filter) : Prop where
  noNul : 0 ∉ f.parameter lower
  active : f.attr = .active → f.value = Text.units "true" ∨ f.value = Text.units "false" ∨
    ∀ r ∈ resources, r.active ≠ some (decide (lower f.value = Text.units "true"))
  absent : f.attr = .externalId → f.value = [] → ∀ r ∈ resources, r.externalId ≠ none
  replaced : f.attr = .externalId →
    ∀ r ∈ resources, r.externalId = some (Text.wellFormed f.value) →
      Text.units (Text.wellFormed f.value) = f.value

theorem isAscii_lowerKey {s : String} (h : Text.isAscii s = true) :
    Text.isAscii (lowerKey s) = true := by
  simp only [Text.isAscii, lowerKey, String.toList_ofList, List.all_map, List.all_eq_true,
    Function.comp_apply, decide_eq_true_eq] at h ⊢
  intro c hc
  have hlt := h c hc
  unfold asciiLower
  split
  · rename_i hupper
    have h2 : c.toNat ≤ 90 := hupper.2
    have hnat : (Char.ofNat (c.toNat + 32)).toNat = c.toNat + 32 :=
      Text.toNat_ofNat (by rw [Nat.isValidChar]; omega)
    omega
  · exact hlt

section Tests

variable {lower : LowerUnits} {r : Listed} {f : Filter} {resources : List Listed}

/-- The comparison of names: both sides fold the case of ASCII alike. -/
theorem fold_iff {s : String} (hs : Text.isAscii s = true) (v : List Nat) :
    lower (Text.units s) = lower v ↔ lowerKey s = Text.wellFormed (lower v) := by
  rw [lower.ascii s hs]
  constructor
  · intro h
    rw [← h, Text.wellFormed_units]
  · intro h
    exact ((Text.wellFormed_eq_ascii (isAscii_lowerKey hs)).mp h.symm).symm

theorem units_eq_iff {s : String} (hs : Text.isAscii s = true) (v : List Nat) :
    Text.units s = v ↔ s = Text.wellFormed v := by
  rw [eq_comm, ← Text.wellFormed_eq_ascii hs, eq_comm]

theorem tests_of_userName (hattr : f.attr = .userName) (hr : r.HasPlain f.attr) :
    matchesFilter lower r (some f) = statementTest lower r f := by
  rw [hattr] at hr
  obtain ⟨s, hs, hascii⟩ := hr
  simp only [matchesFilter, statementTest, hattr, hs, Option.getD_some, Option.map_some,
    Option.some.injEq, fold_iff hascii]

theorem tests_of_displayName (hattr : f.attr = .displayName) (hr : r.HasPlain f.attr) :
    matchesFilter lower r (some f) = statementTest lower r f := by
  rw [hattr] at hr
  obtain ⟨s, hs, hascii⟩ := hr
  simp only [matchesFilter, statementTest, hattr, hs, Option.getD_some, Option.map_some,
    Option.some.injEq, fold_iff hascii]

theorem tests_of_membersValue (hattr : f.attr = .membersValue) (hr : r.HasPlain f.attr) :
    matchesFilter lower r (some f) = statementTest lower r f := by
  rw [hattr] at hr
  simp only [matchesFilter, statementTest, hattr]
  rw [Bool.eq_iff_iff, List.any_eq_true, List.any_eq_true]
  constructor
  · rintro ⟨value, hmem, h⟩
    exact ⟨value, hmem, by simpa [units_eq_iff (hr value hmem)] using h⟩
  · rintro ⟨value, hmem, h⟩
    exact ⟨value, hmem, by simpa [units_eq_iff (hr value hmem)] using h⟩

theorem tests_of_id (hattr : f.attr = .id) :
    matchesFilter lower r (some f) = statementTest lower r f := by
  simp only [matchesFilter, statementTest, hattr, units_eq_iff (isAscii_text r.id)]

/-- A text of `active` that the statement finds is one that `matches` finds. -/
theorem tests_of_active (lower : LowerUnits) (hattr : f.attr = .active) {b : Bool} (hr : r.active = some b) :
    matchesFilter lower r (some f) = (b == decide (lower f.value = Text.units "true")) ∧
      statementTest lower r f = decide (f.value = Text.units (if b then "true" else "false")) := by
  have hascii : Text.isAscii (if b then "true" else "false") = true := by cases b <;> decide
  constructor
  · simp only [matchesFilter, hattr, hr]
    cases b <;> rfl
  · simp only [statementTest, hattr, hr, Option.map_some, Option.some.injEq]
    rw [decide_eq_decide, eq_comm]
    exact Text.wellFormed_eq_ascii hascii

theorem tests_of_externalId (lower : LowerUnits) (r : Listed) (hattr : f.attr = .externalId) :
    matchesFilter lower r (some f) = decide (Text.units (r.externalId.getD "") = f.value) ∧
      statementTest lower r f = decide (r.externalId = some (Text.wellFormed f.value)) := by
  simp only [matchesFilter, statementTest, hattr, and_self]

/-- Of the attributes other than `active` and `externalId` the tests never differ. -/
theorem tests_of_other (hactive : f.attr ≠ .active) (hext : f.attr ≠ .externalId)
    (hr : r.HasPlain f.attr) : matchesFilter lower r (some f) = statementTest lower r f := by
  cases hattr : f.attr with
  | id => exact tests_of_id hattr
  | userName => exact tests_of_userName hattr hr
  | externalId => exact absurd hattr hext
  | active => exact absurd hattr hactive
  | displayName => exact tests_of_displayName hattr hr
  | membersValue => exact tests_of_membersValue hattr hr

theorem lower_true : lower (Text.units "true") = Text.units "true" := lower.ascii "true" (by decide)

theorem lower_false : lower (Text.units "false") = Text.units "false" :=
  lower.ascii "false" (by decide)

theorem lower_activity (b : Bool) :
    decide (lower (Text.units (if b then "true" else "false")) = Text.units "true") = b := by
  cases b with
  | true => simp only [if_true, lower_true, decide_true]
  | false =>
    simp only [Bool.false_eq_true, if_false, lower_false]
    decide

theorem active_agree_iff (hattr : f.attr = .active) (hplain : ∀ r ∈ resources, r.HasPlain f.attr) :
    (∀ r ∈ resources, matchesFilter lower r (some f) = statementTest lower r f) ↔
      (f.value = Text.units "true" ∨ f.value = Text.units "false" ∨
        ∀ r ∈ resources, r.active ≠ some (decide (lower f.value = Text.units "true"))) := by
  rw [hattr] at hplain
  constructor
  · intro h
    by_cases hno : ∀ r ∈ resources, r.active ≠ some (decide (lower f.value = Text.units "true"))
    · exact .inr (.inr hno)
    · push Not at hno
      obtain ⟨r, hr, hselected⟩ := hno
      have htests := tests_of_active lower hattr hselected
      have hsame := h r hr
      rw [htests.1, htests.2, beq_self_eq_true, eq_comm, decide_eq_true_eq] at hsame
      split at hsame
      · exact .inl hsame
      · exact .inr (.inl hsame)
  · intro h r hr
    obtain ⟨b, hb⟩ := hplain r hr
    have htests := tests_of_active lower hattr hb
    rw [htests.1, htests.2]
    rcases h with h | h | h
    · rw [h, lower_true]
      cases b <;> decide
    · rw [h, lower_false]
      cases b <;> decide
    · have hother : b ≠ decide (lower f.value = Text.units "true") := by
        intro heq
        exact h r hr (by rw [hb, heq])
      have hvalue : f.value ≠ Text.units (if b then "true" else "false") := by
        intro heq
        rw [heq, lower_activity] at hother
        exact hother rfl
      rw [beq_eq_false_iff_ne.mpr hother, decide_eq_false hvalue]

theorem externalId_agree_iff (hattr : f.attr = .externalId) :
    (∀ r ∈ resources, matchesFilter lower r (some f) = statementTest lower r f) ↔
      ((f.value = [] → ∀ r ∈ resources, r.externalId ≠ none) ∧
        ∀ r ∈ resources, r.externalId = some (Text.wellFormed f.value) →
          Text.units (Text.wellFormed f.value) = f.value) := by
  have htests (r : Listed) := tests_of_externalId lower r hattr
  constructor
  · intro h
    refine ⟨?_, ?_⟩
    · intro hempty r hr hnone
      have hsame := h r hr
      rw [(htests r).1, (htests r).2, hnone, hempty] at hsame
      exact absurd hsame (by decide)
    · intro r hr hsome
      have hsame := h r hr
      rw [(htests r).1, (htests r).2, hsome, decide_eq_decide] at hsame
      exact hsame.mpr rfl
  · intro h r hr
    rw [(htests r).1, (htests r).2, decide_eq_decide]
    cases hext : r.externalId with
    | none =>
      have hne : f.value ≠ [] := fun hempty => h.1 hempty r hr hext
      simp [Text.units, Ne.symm hne]
    | some s =>
      rw [Option.getD_some, Option.some.injEq]
      constructor
      · intro heq
        rw [← heq, Text.wellFormed_units]
      · intro heq
        rw [heq]
        exact h.2 r hr (by rw [hext, heq])

/-- The two tests agree about the resources exactly for the filters of `Alike`. -/
theorem agree_iff (hplain : ∀ r ∈ resources, r.HasPlain f.attr) (hnul : 0 ∉ f.parameter lower) :
    (∀ r ∈ resources, matchesFilter lower r (some f) = statementTest lower r f) ↔
      Alike lower resources f := by
  by_cases hactive : f.attr = .active
  · have hext : f.attr ≠ .externalId := by rw [hactive]; decide
    rw [active_agree_iff hactive hplain]
    exact ⟨fun h => ⟨hnul, fun _ => h, fun h => absurd h hext, fun h => absurd h hext⟩,
      fun h => h.active hactive⟩
  · by_cases hext : f.attr = .externalId
    · rw [externalId_agree_iff hext]
      exact ⟨fun h => ⟨hnul, fun h => absurd h hactive, fun _ => h.1, fun _ => h.2⟩,
        fun h => ⟨h.absent hext, h.replaced hext⟩⟩
    · exact ⟨fun _ => ⟨hnul, fun h => absurd h hactive, fun h => absurd h hext,
          fun h => absurd h hext⟩,
        fun _ r hr => tests_of_other hactive hext (hplain r hr)⟩

/-- Where the tests differ, the filter says which of them selects more. -/
theorem one_sided (lower : LowerUnits) (f : Filter) :
    (∀ r : Listed, r.HasPlain f.attr → matchesFilter lower r (some f) = true →
        statementTest lower r f = true) ∨
      (∀ r : Listed, r.HasPlain f.attr → statementTest lower r f = true →
        matchesFilter lower r (some f) = true) := by
  by_cases hactive : f.attr = .active
  · right
    intro r hr h
    rw [hactive] at hr
    obtain ⟨b, hb⟩ := hr
    have htests := tests_of_active lower hactive hb
    rw [htests.2, decide_eq_true_eq] at h
    rw [htests.1, h, lower_activity, beq_self_eq_true]
  · by_cases hext : f.attr = .externalId
    · have htests (r : Listed) := tests_of_externalId lower r hext
      by_cases hempty : f.value = []
      · right
        intro r _ h
        rw [(htests r).2, decide_eq_true_eq] at h
        rw [(htests r).1, h, hempty]
        decide
      · left
        intro r _ h
        rw [(htests r).1, decide_eq_true_eq] at h
        rw [(htests r).2, decide_eq_true_eq]
        cases hr : r.externalId with
        | none =>
          rw [hr] at h
          exact absurd h.symm hempty
        | some s => rw [← h, hr, Option.getD_some, Text.wellFormed_units]
    · left
      intro r hr h
      rw [← tests_of_other hactive hext hr]
      exact h

end Tests

/-! ## Listings of stored resources -/

section Rows

variable {ρ : Type} {rows : List ρ}

/-- A test that selects no more rows than another one, and equally many, is that test. -/
theorem same_test {q t : ρ → Bool} (himp : ∀ row ∈ rows, q row = true → t row = true)
    (hlength : (rows.filter q).length = (rows.filter t).length) : ∀ row ∈ rows, q row = t row := by
  have hfilter : rows.filter q = (rows.filter t).filter q := by
    rw [List.filter_filter]
    apply List.filter_congr
    intro row hrow
    cases hq : q row with
    | false => rfl
    | true => rw [himp row hrow hq]; rfl
  have hsub : (rows.filter q).Sublist (rows.filter t) := hfilter ▸ List.filter_sublist
  have heq := hsub.eq_of_length hlength
  intro row hrow
  rw [Bool.eq_iff_iff]
  refine ⟨himp row hrow, fun ht => ?_⟩
  have hmem : row ∈ rows.filter q := heq ▸ List.mem_filter.mpr ⟨hrow, ht⟩
  exact (List.mem_filter.mp hmem).2

variable {idOf : ρ → Uuid} {listedOf : ρ → Listed} {resources : List Listed} {lower : LowerUnits}

theorem page_of_rows (hid : ∀ row ∈ rows, (listedOf row).id = idOf row)
    (hperm : resources.Perm (rows.map listedOf)) (filter : Option Filter) (p : Page) :
    page lower resources filter p =
      listing ((rows.filter fun row => matchesFilter lower (listedOf row) filter).map idOf) p := by
  rw [page_eq_listing]
  apply listing_congr
  have hids : ((rows.map listedOf).filter fun r => matchesFilter lower r filter).map Listed.id =
      (rows.filter fun row => matchesFilter lower (listedOf row) filter).map idOf := by
    rw [List.filter_map, List.map_map]
    apply List.map_congr_left
    intro row hrow
    exact hid row (List.mem_of_mem_filter hrow)
  rw [← hids]
  exact (hperm.filter _).map _

/-- The page of the resources is that of the rows exactly if the two tests agree. -/
theorem listing_eq_page_iff (idOf : ρ → Uuid) {f : Filter} {test : ρ → Bool}
    (hid : ∀ row ∈ rows, (listedOf row).id = idOf row)
    (hperm : resources.Perm (rows.map listedOf))
    (hplain : ∀ row ∈ rows, (listedOf row).HasPlain f.attr)
    (htest : ∀ row ∈ rows, test row = statementTest lower (listedOf row) f)
    (hnul : 0 ∉ f.parameter lower) (p : Page) :
    listing ((rows.filter test).map idOf) p = page lower resources (some f) p ↔
      Alike lower resources f := by
  have hmem (r : Listed) : r ∈ resources ↔ ∃ row ∈ rows, listedOf row = r := by
    rw [hperm.mem_iff, List.mem_map]
  have hagree : Alike lower resources f ↔
      ∀ row ∈ rows, matchesFilter lower (listedOf row) (some f) = test row := by
    rw [← agree_iff (by simpa [hmem] using hplain) hnul]
    simp only [hmem, forall_exists_index, and_imp, forall_apply_eq_imp_iff₂]
    exact forall₂_congr fun row hrow => by rw [htest row hrow]
  rw [hagree, page_of_rows hid hperm]
  constructor
  · intro h
    have hlength := congrArg Listing.totalResults h
    simp only [listing, List.length_map] at hlength
    rcases one_sided lower f with hone | hone
    · apply same_test _ hlength.symm
      intro row hrow hmatches
      rw [htest row hrow]
      exact hone _ (hplain row hrow) hmatches
    · have hsame := same_test (q := test)
        (t := fun row => matchesFilter lower (listedOf row) (some f)) ?_ hlength
      · exact fun row hrow => (hsame row hrow).symm
      · intro row hrow htrue
        rw [htest row hrow] at htrue
        exact hone _ (hplain row hrow) htrue
  · intro h
    rw [List.filter_congr h]

end Rows

/-! ## Users -/

/-- The row stores the resource, as far as a filter can tell. -/
structure StoresUser (r : UserRecord) (row : UserRow) : Prop where
  id : row.id = r.id
  userName : row.username = r.attributes.userName
  externalId : row.externalId = r.attributes.externalId.text?
  active : row.enabled = r.attributes.active

/-- The table stores these resources, one in each row. -/
def StoredUsers (users : List UserRecord) (t : Tables) : Prop :=
  ∃ recordOf : UserRow → UserRecord, (∀ row ∈ t.users.rows, StoresUser (recordOf row) row) ∧
    users.Perm (t.users.rows.map recordOf)

/-- What `rowToUser` reads off a row, and what `coreUser` computes for one, are stored in it. -/
theorem storesUser_rowToUser (row : UserRow) : StoresUser (rowToUser row) row := by
  refine ⟨rfl, rfl, ?_, rfl⟩
  cases h : row.externalId <;> simp [rowToUser, rowAttributes, externalIdField, Field.text?, h]

section Users

variable {lower : LowerUnits} {db : Database} {t : Tables} {f : Filter}

theorem filterSql_of_nul {ρ : Type} {columns : Columns ρ} (hcolumn : (columns f.attr).isSome)
    (hnul : 0 ∈ f.parameter lower) (test : ρ → Bool) :
    filterSql lower columns (some f) ≠ .ok test := by
  obtain ⟨column, hcolumn⟩ := Option.isSome_iff_exists.mp hcolumn
  simp [filterSql, hcolumn, textParameter, hnul, Except.map]

theorem filterSql_of_text {ρ : Type} {columns : Columns ρ} {column : ρ → Option String}
    (hcolumn : columns f.attr = some column) (hnul : 0 ∉ f.parameter lower) :
    filterSql lower columns (some f) =
      .ok fun row => column row = some (Text.wellFormed (f.parameter lower)) := by
  simp [filterSql, hcolumn, textParameter, hnul, Except.map]

/-- The condition on a row is the test of the resource that it stores. -/
theorem userColumn_test {r : UserRecord} {row : UserRow} (hrow : StoresUser r row)
    (hascii : Text.isAscii row.username = true) {column : UserRow → Option String}
    (hcolumn : userColumns db f.attr = some column) :
    decide (column row = some (Text.wellFormed (f.parameter lower))) =
      statementTest lower r.listed f := by
  obtain ⟨attr, value⟩ := f
  cases attr with
  | id =>
    cases hcolumn
    refine decide_eq_decide.mpr ?_
    beta_reduce
    rw [hrow.id, Option.some.injEq]
    rfl
  | userName =>
    cases hcolumn
    refine decide_eq_decide.mpr ?_
    beta_reduce
    rw [db.lower_ascii _ hascii, hrow.userName]
    rfl
  | externalId =>
    cases hcolumn
    refine decide_eq_decide.mpr ?_
    beta_reduce
    rw [hrow.externalId]
    rfl
  | active =>
    cases hcolumn
    refine decide_eq_decide.mpr ?_
    beta_reduce
    rw [hrow.active]
    rfl
  | displayName => cases hcolumn
  | membersValue => cases hcolumn

theorem listUsers_alike {users : List UserRecord} (hstored : StoredUsers users t)
    (hascii : ∀ u ∈ users, Text.isAscii u.attributes.userName = true)
    (hattr : f.attr ∈ (supported .user).map Prod.snd) (p : Page) :
    listUsers lower db t (some f) p = .ok (page lower (users.map UserRecord.listed) (some f) p) ↔
      Alike lower (users.map UserRecord.listed) f := by
  obtain ⟨recordOf, hstores, hperm⟩ := hstored
  have hrow (row) (hrow : row ∈ t.users.rows) : Text.isAscii row.username = true := by
    rw [(hstores row hrow).userName]
    exact hascii _ (hperm.mem_iff.mpr (List.mem_map_of_mem hrow))
  have hcolumn : (userColumns db f.attr).isSome := by
    revert hattr
    cases f.attr <;> simp [supported, userColumns]
  by_cases hnul : 0 ∈ f.parameter lower
  · constructor
    · intro h
      rw [listUsers, bind_eq_ok] at h
      obtain ⟨test, htest, -⟩ := h
      exact absurd htest (filterSql_of_nul hcolumn hnul test)
    · intro h
      exact absurd hnul h.noNul
  · obtain ⟨column, hcolumn⟩ := Option.isSome_iff_exists.mp hcolumn
    have hplain (row) (hmem : row ∈ t.users.rows) : (recordOf row).listed.HasPlain f.attr := by
      revert hattr
      cases f.attr with
      | userName => exact fun _ => ⟨_, rfl, (hstores row hmem).userName ▸ hrow row hmem⟩
      | displayName => simp [supported]
      | active => exact fun _ => ⟨_, rfl⟩
      | membersValue => simp [supported]
      | id => exact fun _ => trivial
      | externalId => exact fun _ => trivial
    have hlisted : (users.map UserRecord.listed).Perm
        (t.users.rows.map fun row => (recordOf row).listed) := by
      have hmap := hperm.map UserRecord.listed
      rw [List.map_map] at hmap
      exact hmap
    rw [← listing_eq_page_iff UserRow.id (fun row hmem => (hstores row hmem).id.symm)
      hlisted hplain (fun row hmem => userColumn_test (hstores row hmem) (hrow row hmem) hcolumn)
      hnul p]
    rw [listUsers, filterSql_of_text hcolumn hnul]
    simp only [bind, Except.bind, pure, Except.pure, limited_eq_listing, Except.ok.injEq]

end Users

/-! ## Groups -/

structure StoresGroup (t : Tables) (r : GroupRecord) (row : GroupRow) : Prop where
  id : row.id = r.id
  displayName : row.displayName = r.attributes.displayName
  externalId : row.externalId = r.attributes.externalId.text?
  members : ∀ value, value ∈ r.attributes.members ↔
    ∃ u : Uuid, value = u.text ∧ ⟨row.id, u⟩ ∈ t.members

def StoredGroups (groups : List GroupRecord) (t : Tables) : Prop :=
  ∃ recordOf : GroupRow → GroupRecord, (∀ row ∈ t.groups.rows, StoresGroup t (recordOf row) row) ∧
    groups.Perm (t.groups.rows.map recordOf)

theorem storesGroup_rowToGroup (t : Tables) (row : GroupRow) :
    StoresGroup t (rowToGroup t row) row := by
  refine ⟨rfl, rfl, ?_, ?_⟩
  · cases h : row.externalId <;> simp [rowToGroup, externalIdField, Field.text?, h]
  · intro value
    simp only [rowToGroup, membersOf, List.mem_map, List.mem_insertionSort, List.mem_filter,
      decide_eq_true_eq]
    constructor
    · rintro ⟨u, ⟨⟨groupId, userId⟩, ⟨hmem, rfl⟩, rfl⟩, rfl⟩
      exact ⟨userId, rfl, hmem⟩
    · rintro ⟨u, rfl, hmem⟩
      exact ⟨u, ⟨⟨row.id, u⟩, ⟨hmem, rfl⟩, rfl⟩, rfl⟩

theorem eraseDups_of_nodup {α : Type} [DecidableEq α] {l : List α} (h : l.Nodup) :
    l.eraseDups = l := by
  induction l with
  | nil => rfl
  | cons a l ih =>
    have hnotin : a ∉ l := (List.nodup_cons.mp h).1
    have hfilter : (l.filter fun b => !b == a) = l := by
      rw [List.filter_eq_self]
      intro b hb
      have hne : b ≠ a := fun heq => hnotin (heq ▸ hb)
      simpa using hne
    rw [List.eraseDups_cons, hfilter, ih (List.nodup_cons.mp h).2]

/-- The membership of the user with this text. -/
def hasMember (t : Tables) (text : String) (g : GroupRow) : Bool :=
  t.members.any fun m => m.groupId = g.id && m.userId.text = text

/-- A row of the table has one row in the join or none, since a membership stands there once. -/
theorem joinMembers_eq_filter {t : Tables} (hkey : t.members.Nodup) (text : String) :
    joinMembers t text = t.groups.rows.filter (hasMember t text) := by
  have hone (g : GroupRow) :
      ((t.members.filter fun m => m.groupId = g.id && m.userId.text = text).map fun _ => g) =
        if hasMember t text g then [g] else [] := by
    have hsame : ∀ m ∈ t.members.filter (fun m => m.groupId = g.id && m.userId.text = text),
        ∀ n ∈ t.members.filter (fun m => m.groupId = g.id && m.userId.text = text), m = n := by
      simp only [List.mem_filter, Bool.and_eq_true, decide_eq_true_eq]
      rintro ⟨_, u⟩ ⟨-, hgroup, huser⟩ ⟨_, v⟩ ⟨-, hgroup', huser'⟩
      have huv : u = v := by
        cases u
        cases v
        cases huser.trans huser'.symm
        rfl
      cases hgroup
      cases hgroup'
      rw [huv]
    have hnodup := hkey.filter fun m => m.groupId = g.id && m.userId.text = text
    have hany : hasMember t text g = true ↔
        t.members.filter (fun m => m.groupId = g.id && m.userId.text = text) ≠ [] := by
      rw [hasMember, List.any_eq_true, ne_eq, List.filter_eq_nil_iff]
      push Not
      rfl
    cases hlist : t.members.filter fun m => m.groupId = g.id && m.userId.text = text with
    | nil =>
      rw [if_neg fun h => hany.mp h hlist]
      rfl
    | cons m rest =>
      rw [hlist] at hsame hnodup hany
      rw [if_pos (hany.mpr (List.cons_ne_nil _ _))]
      cases rest with
      | nil => rfl
      | cons n rest =>
        have heq := hsame m List.mem_cons_self n (List.mem_cons_of_mem _ List.mem_cons_self)
        rw [heq] at hnodup
        exact absurd List.mem_cons_self (List.nodup_cons.mp hnodup).1
  rw [joinMembers]
  induction t.groups.rows with
  | nil => rfl
  | cons g rest ih =>
    rw [List.flatMap_cons, hone, ih, List.filter_cons]
    split <;> rfl

section Groups

variable {lower : LowerUnits} {db : Database} {t : Tables} {f : Filter}

theorem groupColumn_test {r : GroupRecord} {row : GroupRow} (hrow : StoresGroup t r row)
    (hascii : Text.isAscii row.displayName = true) {column : GroupRow → Option String}
    (hcolumn : groupColumns db f.attr = some column) :
    decide (column row = some (Text.wellFormed (f.parameter lower))) =
      statementTest lower r.listed f := by
  obtain ⟨attr, value⟩ := f
  cases attr with
  | id =>
    cases hcolumn
    refine decide_eq_decide.mpr ?_
    beta_reduce
    rw [hrow.id, Option.some.injEq]
    rfl
  | displayName =>
    cases hcolumn
    refine decide_eq_decide.mpr ?_
    beta_reduce
    rw [db.lower_ascii _ hascii, hrow.displayName]
    rfl
  | externalId =>
    cases hcolumn
    refine decide_eq_decide.mpr ?_
    beta_reduce
    rw [hrow.externalId]
    rfl
  | userName => cases hcolumn
  | active => cases hcolumn
  | membersValue => cases hcolumn

theorem hasMember_test {r : GroupRecord} {row : GroupRow} (hrow : StoresGroup t r row)
    (hattr : f.attr = .membersValue) :
    hasMember t (Text.wellFormed f.value) row = statementTest lower r.listed f := by
  rw [statementTest, hattr]
  simp only [hasMember]
  rw [Bool.eq_iff_iff, List.any_eq_true, List.any_eq_true]
  constructor
  · rintro ⟨⟨groupId, u⟩, hmem, htest⟩
    simp only [Bool.and_eq_true, decide_eq_true_eq] at htest
    obtain ⟨rfl, htext⟩ := htest
    exact ⟨u.text, (hrow.members _).mpr ⟨u, rfl, hmem⟩, by simpa using htext⟩
  · rintro ⟨value, hmem, htest⟩
    obtain ⟨u, rfl, hmember⟩ := (hrow.members value).mp hmem
    exact ⟨⟨row.id, u⟩, hmember, by simpa using htest⟩

/-- What `listGroups` answers from the rows that it has selected. -/
theorem limited_groups {selected : List GroupRow} (h : (selected.map GroupRow.id).Nodup) (p : Page) :
    limited GroupRow.id selected.eraseDups selected.length
      (selected.map GroupRow.id).eraseDups.length p = listing (selected.map GroupRow.id) p := by
  rw [eraseDups_of_nodup h, eraseDups_of_nodup h.of_map, List.length_map, limited_eq_listing]

theorem listGroups_alike {groups : List GroupRecord} (ht : t.Constraints db)
    (hstored : StoredGroups groups t)
    (hascii : ∀ g ∈ groups, Text.isAscii g.attributes.displayName = true)
    (hattr : f.attr ∈ (supported .group).map Prod.snd) (p : Page) :
    listGroups lower db t (some f) p = .ok (page lower (groups.map GroupRecord.listed) (some f) p) ↔
      Alike lower (groups.map GroupRecord.listed) f := by
  obtain ⟨recordOf, hstores, hperm⟩ := hstored
  have hrow (row) (hrow : row ∈ t.groups.rows) : Text.isAscii row.displayName = true := by
    rw [(hstores row hrow).displayName]
    exact hascii _ (hperm.mem_iff.mpr (List.mem_map_of_mem hrow))
  have hlisted : (groups.map GroupRecord.listed).Perm
      (t.groups.rows.map fun row => (recordOf row).listed) := by
    have hmap := hperm.map GroupRecord.listed
    rw [List.map_map] at hmap
    exact hmap
  have hplain (row) (hmem : row ∈ t.groups.rows) : (recordOf row).listed.HasPlain f.attr := by
    revert hattr
    cases f.attr with
    | userName => simp [supported]
    | displayName => exact fun _ => ⟨_, rfl, (hstores row hmem).displayName ▸ hrow row hmem⟩
    | active => simp [supported]
    | membersValue =>
      intro _ value hvalue
      obtain ⟨u, rfl, -⟩ := ((hstores row hmem).members value).mp hvalue
      exact isAscii_text u
    | id => exact fun _ => trivial
    | externalId => exact fun _ => trivial
  have hid (row) (hmem : row ∈ t.groups.rows) : (recordOf row).listed.id = row.id :=
    (hstores row hmem).id.symm
  have hnodup (test : GroupRow → Bool) :
      ((t.groups.rows.filter test).map GroupRow.id).Nodup :=
    (Table.nodup_rows_keys t.groups).sublist (List.filter_sublist.map _)
  by_cases hmembers : f.attr = .membersValue
  · obtain ⟨attr, value⟩ := f
    cases hmembers
    by_cases hnul : 0 ∈ value
    · have hno (listing : Listing) :
          listGroups lower db t (some ⟨.membersValue, value⟩) p ≠ .ok listing := by
        simp [listGroups, textParameter, hnul, Except.map, bind, Except.bind]
      exact ⟨fun h => absurd h (hno _), fun h => absurd hnul h.noNul⟩
    · rw [← listing_eq_page_iff GroupRow.id hid hlisted hplain
        (fun row hmem => hasMember_test (hstores row hmem) rfl) hnul p]
      simp only [listGroups, textParameter, hnul, if_false, Except.map, bind, Except.bind, pure,
        Except.pure, joinMembers_eq_filter ht.primaryKey, limited_groups (hnodup _), Except.ok.injEq]
  · have hcolumn : (groupColumns db f.attr).isSome := by
      revert hattr hmembers
      cases f.attr <;> simp [supported, groupColumns]
    have hselect : listGroups lower db t (some f) p =
        ((filterSql lower (groupColumns db) (some f)).map fun test =>
          listing ((t.groups.rows.filter test).map GroupRow.id) p) := by
      obtain ⟨attr, value⟩ := f
      cases attr with
      | membersValue => exact absurd rfl hmembers
      | _ =>
        simp only [listGroups, Except.map, bind, Except.bind, pure, Except.pure]
        cases filterSql lower (groupColumns db) (some ⟨_, value⟩) with
        | error e => rfl
        | ok test => simp only [limited_groups (hnodup test)]
    by_cases hnul : 0 ∈ f.parameter lower
    · constructor
      · intro h
        rw [hselect] at h
        cases hsql : filterSql lower (groupColumns db) (some f) with
        | error e =>
          rw [hsql] at h
          cases h
        | ok test => exact absurd hsql (filterSql_of_nul hcolumn hnul test)
      · intro h
        exact absurd hnul h.noNul
    · obtain ⟨column, hcolumn⟩ := Option.isSome_iff_exists.mp hcolumn
      rw [← listing_eq_page_iff GroupRow.id hid hlisted hplain
        (fun row hmem => groupColumn_test (hstores row hmem) (hrow row hmem) hcolumn) hnul p]
      rw [hselect, filterSql_of_text hcolumn hnul]
      simp only [Except.map, Except.ok.injEq]

end Groups

/-! ## Every filter of a client -/

/-- The two repositories hold the same Users and Groups, with names in ASCII. For a filter that a
client can send, and on every page, they answer the same list if and only if the filter is one of
`Alike`; without a filter they always do. -/
theorem alike_on_page (lower : LowerUnits) (db : Database) (t : Tables) (ht : t.Constraints db)
    (users : List UserRecord) (groups : List GroupRecord) (husers : StoredUsers users t)
    (hgroups : StoredGroups groups t)
    (huserNames : ∀ u ∈ users, Text.isAscii u.attributes.userName = true)
    (hgroupNames : ∀ g ∈ groups, Text.isAscii g.attributes.displayName = true)
    (input : Value) (filter : Option Filter) (p : Page) :
    (parseFilter lower input .user = .ok filter →
      (listUsers lower db t filter p =
          .ok (page lower (users.map UserRecord.listed) filter p) ↔
        ∀ f, filter = some f → Alike lower (users.map UserRecord.listed) f)) ∧
    (parseFilter lower input .group = .ok filter →
      (listGroups lower db t filter p =
          .ok (page lower (groups.map GroupRecord.listed) filter p) ↔
        ∀ f, filter = some f → Alike lower (groups.map GroupRecord.listed) f)) := by
  cases filter with
  | some f =>
    simp only [Option.some.injEq, forall_eq']
    exact ⟨fun h => listUsers_alike husers huserNames (parseFilter_ok h).1 p,
      fun h => listGroups_alike ht hgroups hgroupNames (parseFilter_ok h).1 p⟩
  | none =>
    simp only [reduceCtorEq, false_implies, implies_true, iff_true]
    constructor
    · intro _
      obtain ⟨recordOf, hstores, hperm⟩ := husers
      have hlisted := hperm.map UserRecord.listed
      rw [List.map_map] at hlisted
      rw [page_of_rows (fun row hmem => (hstores row hmem).id.symm) hlisted]
      simp only [listUsers, filterSql, matchesFilter, bind, Except.bind, pure, Except.pure,
        limited_eq_listing]
    · intro _
      obtain ⟨recordOf, hstores, hperm⟩ := hgroups
      have hlisted := hperm.map GroupRecord.listed
      rw [List.map_map] at hlisted
      rw [page_of_rows (fun row hmem => (hstores row hmem).id.symm) hlisted]
      have hnodup : ((t.groups.rows.filter fun _ => true).map GroupRow.id).Nodup :=
        (Table.nodup_rows_keys t.groups).sublist (List.filter_sublist.map _)
      simp only [listGroups, filterSql, matchesFilter, bind, Except.bind, pure, Except.pure,
        Except.map, limited_groups hnodup]

/-- **Lists.** On every page the two repositories answer a client alike if and only if the filter is one
of `Alike`, and so they do for every request that has this filter and this page. -/
theorem lists_alike (lower : LowerUnits) (db : Database) (t : Tables) (ht : t.Constraints db)
    (users : List UserRecord) (groups : List GroupRecord) (husers : StoredUsers users t)
    (hgroups : StoredGroups groups t)
    (huserNames : ∀ u ∈ users, Text.isAscii u.attributes.userName = true)
    (hgroupNames : ∀ g ∈ groups, Text.isAscii g.attributes.displayName = true)
    (input : Value) (filter : Option Filter) (p : Page) :
    ((parseFilter lower input .user = .ok filter →
      (listUsers lower db t filter p =
          .ok (page lower (users.map UserRecord.listed) filter p) ↔
        ∀ f, filter = some f → Alike lower (users.map UserRecord.listed) f)) ∧
    (parseFilter lower input .group = .ok filter →
      (listGroups lower db t filter p =
          .ok (page lower (groups.map GroupRecord.listed) filter p) ↔
        ∀ f, filter = some f → Alike lower (groups.map GroupRecord.listed) f))) ∧
    ∀ maxPageSize defaultPageSize query,
      (listArguments lower .user maxPageSize defaultPageSize query = .ok (filter, p) →
        (listUsers lower db t filter p =
            .ok (page lower (users.map UserRecord.listed) filter p) ↔
          ∀ f, filter = some f → Alike lower (users.map UserRecord.listed) f)) ∧
      (listArguments lower .group maxPageSize defaultPageSize query = .ok (filter, p) →
        (listGroups lower db t filter p =
            .ok (page lower (groups.map GroupRecord.listed) filter p) ↔
          ∀ f, filter = some f → Alike lower (groups.map GroupRecord.listed) f)) := by
  have hpage := alike_on_page lower db t ht users groups husers hgroups huserNames hgroupNames
  refine ⟨hpage input filter p, fun maxPageSize defaultPageSize query => ⟨?_, ?_⟩⟩
  · exact fun h => (hpage query.filter filter p).1 (parseFilter_of_listArguments h)
  · exact fun h => (hpage query.filter filter p).2 (parseFilter_of_listArguments h)

/-! ### A user who is active -/

def firstPage : Page := ⟨1, 100, Nat.zero_lt_one⟩

def oneUser : Tables := twoGroups "Red" "Blue"

theorem storedUsers_oneUser : StoredUsers [rowToUser someUser] oneUser :=
  ⟨rowToUser, fun row _ => storesUser_rowToUser row, List.Perm.refl _⟩

theorem storedGroups_oneUser :
    StoredGroups (oneUser.groups.rows.map (rowToGroup oneUser)) oneUser :=
  ⟨rowToGroup oneUser, fun row _ => storesGroup_rowToGroup oneUser row, List.Perm.refl _⟩

/-- The query of a client that asks for the active users. -/
def activeQuery : ListQuery := ⟨.undefined, .string "500", .string "active eq \"true\""⟩

theorem lists_alike_active :
    listArguments asciiUnits .user 200 100 activeQuery =
      .ok (some ⟨.active, Text.units "true"⟩, ⟨1, 200, Nat.zero_lt_one⟩) ∧
    listUsers asciiUnits asciiDatabase oneUser (some ⟨.active, Text.units "true"⟩)
        ⟨1, 200, Nat.zero_lt_one⟩ =
      .ok (page asciiUnits [(rowToUser someUser).listed] (some ⟨.active, Text.units "true"⟩)
        ⟨1, 200, Nat.zero_lt_one⟩) := by
  have ht : oneUser.Constraints asciiDatabase :=
    constraints_twoGroups (by decide) (by decide) (by decide)
  have h := lists_alike asciiUnits asciiDatabase oneUser ht _ _ storedUsers_oneUser
    storedGroups_oneUser (by decide) (by decide) .undefined
    (some ⟨.active, Text.units "true"⟩) ⟨1, 200, Nat.zero_lt_one⟩
  have hquery : listArguments asciiUnits .user 200 100 activeQuery =
      .ok (some ⟨.active, Text.units "true"⟩, ⟨1, 200, Nat.zero_lt_one⟩) := rfl
  refine ⟨hquery, ((h.2 200 100 activeQuery).1 hquery).mpr ?_⟩
  rintro f ⟨⟩
  exact ⟨by decide, fun _ => .inl rfl, fun h => absurd h (by decide), fun h => absurd h (by decide)⟩

/-- `active eq "True"` selects the active users in memory and no user in PostgreSQL. -/
theorem lists_alike_letterCase :
    parseFilter asciiUnits (.string "active eq \"True\"") .user =
        .ok (some ⟨.active, Text.units "True"⟩) ∧
      page asciiUnits [(rowToUser someUser).listed] (some ⟨.active, Text.units "True"⟩) firstPage =
        ⟨1, [someUser.id]⟩ ∧
      listUsers asciiUnits asciiDatabase oneUser (some ⟨.active, Text.units "True"⟩) firstPage =
        .ok ⟨0, []⟩ :=
  ⟨rfl, rfl, rfl⟩

end AuthMe.Scim

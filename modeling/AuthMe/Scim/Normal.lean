import Mathlib.Data.List.DropRight
import AuthMe.Scim.Attributes

/-!
# Normal resources

What `normalizeUser` and `normalizeGroup` return (`User.Normal`, `Group.Normal`), and that they give
back a normal resource, whatever the order of the keys in its objects is.

Two records are compared as `isDeepStrictEqual` does: objects by their entries, arrays in order.
-/

namespace AuthMe

/-! ## Texts -/

namespace Text

theorem trim_toList (s : String) :
    (trim s).toList = (s.toList.dropWhile isWhiteSpace).rdropWhile isWhiteSpace := by
  rw [trim, String.toList_ofList, List.rdropWhile]

@[simp] theorem trim_trim (s : String) : trim (trim s) = trim s := by
  apply String.toList_injective
  rw [trim_toList, trim_toList]
  generalize hl : s.toList.dropWhile isWhiteSpace = l
  have hhead : l.dropWhile isWhiteSpace = l := by rw [← hl, List.dropWhile_idempotent]
  have hprefix := List.rdropWhile_prefix isWhiteSpace l
  have hkeep : (l.rdropWhile isWhiteSpace).dropWhile isWhiteSpace = l.rdropWhile isWhiteSpace := by
    cases hr : l.rdropWhile isWhiteSpace with
    | nil => rfl
    | cons c cs =>
      rw [hr] at hprefix
      obtain ⟨rest, rfl⟩ := hprefix
      have hc : isWhiteSpace c = false := by
        rw [List.cons_append] at hhead
        cases hc : isWhiteSpace c with
        | false => rfl
        | true =>
          rw [List.dropWhile_cons_of_pos hc] at hhead
          have hlength := congrArg List.length hhead
          have hle := (List.dropWhile_suffix isWhiteSpace (l := cs ++ rest)).length_le
          rw [List.length_cons] at hlength
          omega
      rw [List.dropWhile_cons_of_neg (by simp [hc])]
  rw [hkeep, List.rdropWhile_idempotent]

/-- The code units of a list of characters. -/
theorem foldl_length (cs : List Char) (n : Nat) :
    cs.foldl (fun n c => n + if c.toNat < 0x10000 then 1 else 2) n =
      n + cs.foldl (fun n c => n + if c.toNat < 0x10000 then 1 else 2) 0 := by
  induction cs generalizing n with
  | nil => rfl
  | cons c cs ih =>
    rw [List.foldl_cons, List.foldl_cons, ih, ih (0 + _)]
    omega

theorem foldl_length_le {cs ds : List Char} (h : cs.Sublist ds) :
    cs.foldl (fun n c => n + if c.toNat < 0x10000 then 1 else 2) 0 ≤
      ds.foldl (fun n c => n + if c.toNat < 0x10000 then 1 else 2) 0 := by
  induction h with
  | slnil => exact Nat.le_refl _
  | cons c _ ih =>
    rw [List.foldl_cons, foldl_length _ (0 + _)]
    omega
  | cons_cons c _ ih =>
    rw [List.foldl_cons, List.foldl_cons, foldl_length _ (0 + _), foldl_length _ (0 + _)]
    omega

theorem length_trim_le (s : String) : length (trim s) ≤ length s := by
  unfold length
  apply foldl_length_le
  rw [trim_toList]
  exact (List.rdropWhile_prefix isWhiteSpace _).sublist.trans
    (List.dropWhile_suffix isWhiteSpace).sublist

end Text

namespace Scim

/-! ## Records as objects -/

/-- The object with these attributes. -/
def toObject {α : Type} (key : α → String) (all : List α) (r : Resource α) : Value :=
  .object (all.filterMap fun a => (r a).map fun v => (key a, v))

def User.toValue (user : User) : Value := toObject UserAttribute.key UserAttribute.all user.toResource

/-- The record as an object. -/
def Group.toResource (group : Group) : Resource GroupAttribute
  | .displayName => some (.string group.displayName)
  | .externalId => group.externalId.toValue
  | .members => some (.array (group.members.map fun value =>
      .object [("value", .string value), ("type", .string "User")]))

def Group.toValue (group : Group) : Value := toObject GroupAttribute.key GroupAttribute.all group.toResource

section Canonical

variable {α : Type} [DecidableEq α] {lower : LowerCase} {names : String → Option α}
  {key : α → String}

/-- Canonical names are read back. -/
structure Canonical (lower : LowerCase) (names : String → Option α) (key : α → String) : Prop where
  names : ∀ a, names (lower (key a)) = some a
  writable : ∀ a, lower (key a) ∉ ["schemas", "id", "meta", "groups"]

theorem canonicalEntries (h : Canonical lower names key) (r : Resource α) (l : List α)
    (init : Resource α) :
    (l.filterMap fun a => (r a).map fun v => (key a, v)).foldlM (canonicalEntry lower names) init =
      .ok fun a => if a ∈ l then (r a).or (init a) else init a := by
  induction l generalizing init with
  | nil => rfl
  | cons b l ih =>
    rw [List.filterMap_cons]
    cases hb : r b with
    | none =>
      rw [Option.map_none, ih]
      congr 1
      funext a
      by_cases hab : a = b
      · subst hab
        simp [hb]
      · simp [hab]
    | some v =>
      have hw := h.writable b
      simp only [List.mem_cons, List.not_mem_nil, or_false, not_or] at hw
      have hentry : canonicalEntry lower names init (key b, v) =
          .ok (Function.update init b (some v)) := by
        simp only [canonicalEntry, hw, h.names, or_self, if_false]
      rw [Option.map_some, List.foldlM_cons, hentry, bind_eq_ok]
      refine ⟨_, rfl, ?_⟩
      rw [ih]
      congr 1
      funext a
      by_cases hab : a = b
      · subst hab
        simp [hb]
      · simp [hab]

/-- `canonicalInput` gives back an object with canonical names. -/
theorem canonicalInput_toObject (h : Canonical lower names key) {all : List α}
    (hall : ∀ a, a ∈ all) (r : Resource α) (schemaUrn : String) :
    canonicalInput lower names schemaUrn (toObject key all r) = .ok r := by
  have hschemas : (toObject key all r).get "schemas" = .undefined := by
    have hno : "schemas" ∉ (all.filterMap fun a => (r a).map fun v => (key a, v)).map Prod.fst := by
      simp only [List.mem_map, List.mem_filterMap, Option.map_eq_some_iff]
      rintro ⟨entry, ⟨a, _, v, _, rfl⟩, hkey⟩
      have hw := h.writable a
      have hlower : lower (key a) = "schemas" := by
        rw [show key a = "schemas" from hkey, lower.ascii _ (by decide)]
        decide
      rw [hlower] at hw
      exact hw List.mem_cons_self
    rw [toObject, Value.get, OrderedMap.lookup_eq_none hno]
    rfl
  rw [canonicalInput, bind_eq_ok]
  refine ⟨_, rfl, ?_⟩
  dsimp only
  rw [hschemas]
  rw [if_neg (by simp [Value.isNullish]), canonicalEntries h]
  congr 1
  funext a
  rw [if_pos (hall a), Option.or_none]

end Canonical

/-! ## Deep equality -/

/-- The same entries, in any order. -/
def sameEntries (m m' : OrderedMap String String) : Bool :=
  (m.entries.all fun entry => m'.get? entry.1 = some entry.2) &&
    m'.entries.all fun entry => m.get? entry.1 = some entry.2

theorem sameEntries_iff {m m' : OrderedMap String String} :
    sameEntries m m' = true ↔ ∀ k, m.get? k = m'.get? k := by
  simp only [sameEntries, Bool.and_eq_true, List.all_eq_true, decide_eq_true_eq, Prod.forall,
    OrderedMap.mem_entries_iff]
  constructor
  · rintro ⟨h, h'⟩ k
    cases hm : m.get? k with
    | some v => rw [h k v hm]
    | none =>
      cases hm' : m'.get? k with
      | none => rfl
      | some v => exact absurd ((h' k v hm').symm.trans hm) (by simp)
  · intro h
    exact ⟨fun k v hm => (h k).symm.trans hm, fun k v hm => (h k).trans hm⟩

def Item.deepEquals (i j : Item) : Bool := i.primary = j.primary && sameEntries i.texts j.texts

def sameItems : List Item → List Item → Bool
  | [], [] => true
  | i :: is, j :: js => i.deepEquals j && sameItems is js
  | _, _ => false

/-- Both are missing, or neither is and they are the same. -/
def sameOption {ι : Type} (same : ι → ι → Bool) : Option ι → Option ι → Bool
  | none, none => true
  | some x, some y => same x y
  | _, _ => false

/-- `isDeepStrictEqual` of two records. -/
def User.deepEquals (u v : User) : Bool :=
  u.userName = v.userName && u.externalId = v.externalId &&
    (TextAttribute.all.all fun a => u.text a = v.text a) && u.active = v.active &&
    u.password = v.password && sameOption sameEntries u.name v.name &&
    MultiAttribute.all.all fun a => sameOption sameItems (u.multi a) (v.multi a)

/-- The sub-attribute of a complex value. -/
def Complex.sub (c : Complex) (k : String) : Option Value := (c.get? k).map .string

/-- The sub-attribute of an item. -/
def Item.sub (item : Item) (k : String) : Option Value :=
  if k = "primary" then item.primary.map .bool else (item.texts.get? k).map .string

theorem sameOption_iff {ι : Type} {same : ι → ι → Bool} {x y : Option ι} :
    sameOption same x y = true ↔
      (x = none ∧ y = none) ∨ ∃ a b, x = some a ∧ y = some b ∧ same a b = true := by
  cases x <;> cases y <;> simp [sameOption]

theorem sameItems_iff {is js : List Item} :
    sameItems is js = true ↔ List.Forall₂ (fun i j => i.deepEquals j = true) is js := by
  induction is generalizing js with
  | nil => cases js <;> simp [sameItems]
  | cons i is ih => cases js <;> simp [sameItems, ih]

/-- What two deeply equal records have in common. -/
theorem User.deepEquals_iff {u v : User} : u.deepEquals v = true ↔
    u.userName = v.userName ∧ u.externalId = v.externalId ∧ (∀ a, u.text a = v.text a) ∧
      u.active = v.active ∧ u.password = v.password ∧ sameOption sameEntries u.name v.name = true ∧
      ∀ a, sameOption sameItems (u.multi a) (v.multi a) = true := by
  simp only [User.deepEquals, Bool.and_eq_true, decide_eq_true_eq, List.all_eq_true]
  constructor
  · rintro ⟨⟨⟨⟨⟨⟨h1, h2⟩, h3⟩, h4⟩, h5⟩, h6⟩, h7⟩
    exact ⟨h1, h2, fun a => h3 a a.mem_all, h4, h5, h6, fun a => h7 a a.mem_all⟩
  · rintro ⟨h1, h2, h3, h4, h5, h6, h7⟩
    exact ⟨⟨⟨⟨⟨⟨h1, h2⟩, fun a _ => h3 a⟩, h4⟩, h5⟩, h6⟩, fun a _ => h7 a⟩

/-! ## Objects with good entries -/

/-- An object with these members, in any order. -/
def IsObject (v : Value) (sub : String → Option Value) : Prop :=
  ∃ entries, v = .object entries ∧ (entries.map Prod.fst).Nodup ∧
    ∀ k, OrderedMap.lookup k entries = sub k

/-- A loop over the entries that takes every good entry up collects their lookups. -/
theorem foldlM_entries {β : Type} {f : β → String × Value → Except Error β}
    {sub : β → String → Option Value} {good : String → Value → Prop}
    (hstep : ∀ acc k v, good k v → ∃ acc', f acc (k, v) = .ok acc' ∧
      ∀ a, sub acc' a = if a = k then some v else sub acc a)
    {entries : List (String × Value)} (hnodup : (entries.map Prod.fst).Nodup)
    (hgood : ∀ entry ∈ entries, good entry.1 entry.2) (acc : β) :
    ∃ acc', entries.foldlM f acc = .ok acc' ∧
      ∀ a, sub acc' a = (OrderedMap.lookup a entries).or (sub acc a) := by
  induction entries generalizing acc with
  | nil => exact ⟨acc, rfl, fun a => rfl⟩
  | cons entry rest ih =>
    obtain ⟨k, v⟩ := entry
    rw [List.map_cons, List.nodup_cons] at hnodup
    obtain ⟨acc₁, hfirst, hsub₁⟩ := hstep acc k v (hgood _ List.mem_cons_self)
    obtain ⟨acc', hrest, hsub⟩ := ih hnodup.2 (fun e he => hgood e (List.mem_cons_of_mem _ he)) acc₁
    refine ⟨acc', ?_, ?_⟩
    · rw [List.foldlM_cons, hfirst]
      exact hrest
    · intro a
      rw [hsub, hsub₁, OrderedMap.lookup]
      by_cases ha : a = k
      · subst ha
        rw [OrderedMap.lookup_eq_none hnodup.1, if_pos rfl, if_pos rfl]
        rfl
      · rw [if_neg ha, if_neg (Ne.symm ha)]

/-- What every entry keeps holds after the loop. -/
theorem foldlM_keeps {β ε : Type} {f : β → String × Value → Except ε β} {P : β → Prop}
    (hstep : ∀ acc entry acc', f acc entry = .ok acc' → P acc → P acc')
    {entries : List (String × Value)} {acc acc' : β} (h : entries.foldlM f acc = .ok acc')
    (h0 : P acc) : P acc' := by
  induction entries generalizing acc with
  | nil =>
    cases h
    exact h0
  | cons entry rest ih =>
    rw [List.foldlM_cons, bind_eq_ok] at h
    obtain ⟨m, hm, hrest⟩ := h
    exact ih hrest (hstep _ _ _ hm h0)

/-- The members of an object that a normalised value is: texts of at most 2048 code units. -/
structure GoodTexts (m : OrderedMap String String) : Prop where
  proto : m.get? "__proto__" = none
  short : ∀ k s, m.get? k = some s → Text.length s ≤ 2048

theorem GoodTexts.empty : GoodTexts .empty := ⟨rfl, fun _ _ h => by cases h⟩

theorem GoodTexts.assign {m : OrderedMap String String} (h : GoodTexts m) (k : String) {s : String}
    (hs : Text.length s ≤ 2048) : GoodTexts (assign k s m) := by
  unfold Scim.assign
  split
  · exact h
  · rename_i hk
    refine ⟨?_, ?_⟩
    · rw [OrderedMap.get?_set, if_neg (Ne.symm hk)]
      exact h.proto
    · intro a t ht
      rw [OrderedMap.get?_set] at ht
      split at ht
      · cases ht
        exact hs
      · exact h.short a t ht

theorem GoodTexts.congr {m m' : OrderedMap String String} (h : GoodTexts m)
    (heq : ∀ k, m.get? k = m'.get? k) : GoodTexts m' :=
  ⟨heq _ ▸ h.proto, fun k s hs => h.short k s ((heq k).trans hs)⟩

/-! ### Complex values -/

theorem normalizeComplex_good {v : Value} {name : String} {c : Complex}
    (h : normalizeComplex v name = .ok c) : GoodTexts c := by
  rw [normalizeComplex, bind_eq_ok] at h
  obtain ⟨entries, -, h⟩ := h
  refine foldlM_keeps ?_ h .empty
  intro acc entry acc' hentry hacc
  unfold complexEntry at hentry
  split at hentry
  · cases hentry
    exact hacc
  · split at hentry
    · rename_i s _
      split at hentry
      · cases hentry
      · rename_i hs
        cases hentry
        exact hacc.assign _ (Nat.le_of_not_lt hs)
    · cases hentry

theorem normalizeComplex_object (name : String) {v : Value} {c : Complex} (hc : GoodTexts c)
    (hv : IsObject v c.sub) :
    ∃ c', normalizeComplex v name = .ok c' ∧ ∀ k, c'.get? k = c.get? k := by
  obtain ⟨entries, rfl, hnodup, hlookup⟩ := hv
  have hgood : ∀ entry ∈ entries, ∃ s, entry.2 = .string s ∧ c.get? entry.1 = some s := by
    rintro ⟨k, v⟩ hmem
    have hfound : OrderedMap.lookup k entries = some v :=
      (OrderedMap.mem_entries_iff (m := ⟨entries, hnodup⟩)).mp hmem
    rw [hlookup, Complex.sub, Option.map_eq_some_iff] at hfound
    obtain ⟨s, hs, rfl⟩ := hfound
    exact ⟨s, rfl, hs⟩
  have hstep : ∀ (acc : Complex) (k : String) (v : Value), (∃ s, v = .string s ∧ c.get? k = some s) →
      ∃ acc', complexEntry name acc (k, v) = .ok acc' ∧
        ∀ a, acc'.sub a = if a = k then some v else acc.sub a := by
    rintro acc k _ ⟨s, rfl, hs⟩
    have hshort : ¬ 2048 < Text.length s := Nat.not_lt.mpr (hc.short k s hs)
    have hproto : k ≠ "__proto__" := by
      rintro rfl
      exact absurd (hs.symm.trans hc.proto) (by simp)
    refine ⟨acc.set k s, ?_, ?_⟩
    · simp [complexEntry, Value.isNullish, hshort, assign, hproto]
    · intro a
      rw [Complex.sub, Complex.sub, OrderedMap.get?_set]
      split <;> rfl
  obtain ⟨c', hfold, hsub⟩ := foldlM_entries hstep hnodup hgood .empty
  refine ⟨c', hfold, fun k => ?_⟩
  have hk := hsub k
  rw [hlookup, Complex.sub, Complex.sub, Complex.sub, OrderedMap.get?_empty, Option.map_none,
    Option.or_none] at hk
  exact Option.map_injective (fun s t h => Value.string.inj h) hk

/-! ### Items -/

/-- What a normalised item is. -/
structure Item.Good (item : Item) : Prop extends GoodTexts item.texts where
  primary : item.texts.get? "primary" = none

theorem normalizeItem_good {place : String} {v : Value} {item : Item}
    (h : normalizeItem place v = .ok item) : item.Good := by
  rw [normalizeItem, bind_eq_ok] at h
  obtain ⟨entries, -, h⟩ := h
  refine foldlM_keeps ?_ h ⟨.empty, rfl⟩
  intro acc entry acc' hentry hacc
  unfold itemEntry at hentry
  split at hentry
  · cases hentry
    exact hacc
  · split at hentry
    · split at hentry
      · cases hentry
        exact ⟨hacc.toGoodTexts, hacc.primary⟩
      · cases hentry
    · rename_i hkey
      split at hentry
      · cases hentry
      · cases hentry
        exact hacc
      · rename_i s hs
        cases hentry
        have hshort : Text.length s ≤ 2048 := by
          unfold text at hs
          split at hs
          · cases hs
          · dsimp only at hs
            split at hs
            · split at hs
              · cases hs
              · rename_i hno
                cases hs
                simp only [Bool.false_and, Bool.false_or, decide_eq_true_eq] at hno
                exact Nat.le_of_not_lt hno
            · cases hs
        refine ⟨hacc.assign _ hshort, ?_⟩
        unfold assign
        split
        · exact hacc.primary
        · rw [OrderedMap.get?_set, if_neg (Ne.symm hkey)]
          exact hacc.primary

theorem text_string {s name : String} {max : Nat} (h : Text.length s ≤ max) :
    text (.string s) name false max = .ok (some s) := by
  simp [text, Value.isNullish, Nat.not_lt.mpr h]

theorem normalizeItem_object (place : String) {v : Value} {item : Item} (hi : item.Good)
    (hv : IsObject v item.sub) :
    ∃ item', normalizeItem place v = .ok item' ∧ item'.deepEquals item = true := by
  obtain ⟨entries, rfl, hnodup, hlookup⟩ := hv
  have hgood : ∀ entry ∈ entries, item.sub entry.1 = some entry.2 := by
    rintro ⟨k, v⟩ hmem
    rw [← hlookup]
    exact (OrderedMap.mem_entries_iff (m := ⟨entries, hnodup⟩)).mp hmem
  have hstep : ∀ (acc : Item) (k : String) (v : Value), item.sub k = some v →
      ∃ acc', itemEntry place acc (k, v) = .ok acc' ∧
        ∀ a, acc'.sub a = if a = k then some v else acc.sub a := by
    intro acc k v hk
    by_cases hprimary : k = "primary"
    · subst hprimary
      rw [Item.sub, if_pos rfl, Option.map_eq_some_iff] at hk
      obtain ⟨b, -, rfl⟩ := hk
      refine ⟨{ acc with primary := some b }, by simp [itemEntry, Value.isNullish], ?_⟩
      intro a
      rw [Item.sub, Item.sub]
      split <;> rfl
    · rw [Item.sub, if_neg hprimary, Option.map_eq_some_iff] at hk
      obtain ⟨s, hs, rfl⟩ := hk
      have hproto : k ≠ "__proto__" := by
        rintro rfl
        exact absurd (hs.symm.trans hi.proto) (by simp)
      refine ⟨{ acc with texts := acc.texts.set k s }, ?_, ?_⟩
      · simp [itemEntry, Value.isNullish, hprimary, text_string (hi.short k s hs), assign, hproto]
      · intro a
        rw [Item.sub, Item.sub, OrderedMap.get?_set]
        by_cases ha : a = k
        · subst ha
          rw [if_neg hprimary, if_pos rfl, if_pos rfl]
          rfl
        · rw [if_neg ha, if_neg ha]
  obtain ⟨item', hfold, hsub⟩ := foldlM_entries hstep hnodup hgood ⟨none, .empty⟩
  refine ⟨item', hfold, ?_⟩
  have hsame : ∀ k, item'.sub k = item.sub k := by
    intro k
    rw [hsub, hlookup]
    simp [Item.sub]
  rw [Item.deepEquals, Bool.and_eq_true, decide_eq_true_eq, sameEntries_iff]
  constructor
  · have hp := hsame "primary"
    rw [Item.sub, Item.sub, if_pos rfl, if_pos rfl] at hp
    exact Option.map_injective (fun a b h => Value.bool.inj h) hp
  · intro k
    by_cases hk : k = "primary"
    · have hgood' : item'.Good := normalizeItem_good (v := .object entries) hfold
      rw [hk, hgood'.primary, hi.primary]
    · have hk' := hsame k
      rw [Item.sub, Item.sub, if_neg hk, if_neg hk] at hk'
      exact Option.map_injective (fun s t h => Value.string.inj h) hk'

/-- What a normalised multi-valued attribute is. -/
structure GoodItems (items : List Item) : Prop where
  good : ∀ item ∈ items, item.Good
  primary : (items.countP fun item => item.primary = some true) ≤ 1

theorem normalizeItems_good {name : String} {index : Nat} {values : List Value} {items : List Item}
    (h : normalizeItems name index values = .ok items) : ∀ item ∈ items, item.Good := by
  induction values generalizing index items with
  | nil =>
    cases h
    simp
  | cons v values ih =>
    rw [normalizeItems, bind_eq_ok] at h
    obtain ⟨item, hitem, h⟩ := h
    rw [bind_eq_ok] at h
    obtain ⟨rest, hrest, h⟩ := h
    cases h
    rw [List.forall_mem_cons]
    exact ⟨normalizeItem_good hitem, ih hrest⟩

theorem normalizeMulti_good {v : Value} {name : String} {items : List Item}
    (h : normalizeMulti v name = .ok items) : GoodItems items := by
  unfold normalizeMulti at h
  split at h
  · rw [bind_eq_ok] at h
    obtain ⟨result, hresult, h⟩ := h
    split at h
    · cases h
    · rename_i hcount
      cases h
      exact ⟨normalizeItems_good hresult, Nat.le_of_not_lt hcount⟩
  · cases h

/-- A list of objects with the members of these items. -/
def AreObjects (values : List Value) (items : List Item) : Prop :=
  List.Forall₂ (fun v item => IsObject v item.sub) values items

theorem normalizeItems_objects (name : String) (index : Nat) {values : List Value}
    {items : List Item} (hgood : ∀ item ∈ items, item.Good) (hv : AreObjects values items) :
    ∃ items', normalizeItems name index values = .ok items' ∧ sameItems items' items = true := by
  induction hv generalizing index with
  | nil => exact ⟨[], rfl, rfl⟩
  | cons hfirst _ ih =>
    rw [List.forall_mem_cons] at hgood
    obtain ⟨item', hitem, hsame⟩ :=
      normalizeItem_object (name ++ "[" ++ toString index ++ "]") hgood.1 hfirst
    obtain ⟨items', hitems, hrest⟩ := ih (index + 1) hgood.2
    refine ⟨item' :: items', ?_, ?_⟩
    · simp only [normalizeItems, hitem, hitems, bind, Except.bind, pure, Except.pure]
    · rw [sameItems, hsame, hrest]
      rfl

theorem countP_of_sameItems {items items' : List Item} (h : sameItems items' items = true) :
    (items'.countP fun item => item.primary = some true) =
      items.countP fun item => item.primary = some true := by
  rw [sameItems_iff] at h
  induction h with
  | nil => rfl
  | cons hfirst _ ih =>
    rw [Item.deepEquals, Bool.and_eq_true, decide_eq_true_eq] at hfirst
    rw [List.countP_cons, List.countP_cons, ih, hfirst.1]

theorem normalizeMulti_objects (name : String) {values : List Value} {items : List Item}
    (hgood : GoodItems items) (hv : AreObjects values items) :
    ∃ items', normalizeMulti (.array values) name = .ok items' ∧ sameItems items' items = true := by
  obtain ⟨items', hitems, hsame⟩ := normalizeItems_objects name 0 hgood.good hv
  have hcount := countP_of_sameItems hsame
  refine ⟨items', ?_, hsame⟩
  rw [normalizeMulti, bind_eq_ok]
  refine ⟨items', hitems, ?_⟩
  rw [if_neg (by rw [hcount]; exact Nat.not_lt.mpr hgood.primary)]
  rfl

theorem GoodItems.congr {items items' : List Item} (h : GoodItems items)
    (hsame : sameItems items items' = true) : GoodItems items' := by
  refine ⟨?_, countP_of_sameItems hsame ▸ h.primary⟩
  have hgood := h.good
  rw [sameItems_iff] at hsame
  clear h
  induction hsame with
  | nil => simp
  | cons hfirst _ ih =>
    rw [List.forall_mem_cons] at hgood ⊢
    rw [Item.deepEquals, Bool.and_eq_true, decide_eq_true_eq, sameEntries_iff] at hfirst
    refine ⟨⟨hgood.1.toGoodTexts.congr hfirst.2, ?_⟩, ih hgood.2⟩
    rw [← hfirst.2]
    exact hgood.1.primary

/-! ## Users -/

/-- A text that `text` accepts. -/
def Field.Short (max : Nat) (field : Field) : Prop := ∀ s, field = .value s → Text.length s ≤ max

/-- A required name, as it is after the normalisation. -/
structure GoodName (s : String) : Prop where
  trimmed : Text.trim s = s
  present : s ≠ ""
  short : Text.length s ≤ 256

/-- What `normalizeUser` returns. -/
structure User.Normal (u : User) : Prop where
  userName : GoodName u.userName
  externalId : u.externalId.Short 256
  text : ∀ a, (u.text a).Short 2048
  password : u.password.Short 1024
  name : ∀ c, u.name = some c → GoodTexts c
  multi : ∀ a items, u.multi a = some items → GoodItems items

theorem requiredName_good {v : Value} {name s : String} (h : requiredName v name = .ok s) :
    GoodName s := by
  rw [requiredName, bind_eq_ok] at h
  obtain ⟨found, hfound, h⟩ := h
  cases h
  unfold text at hfound
  rw [if_neg (by simp)] at hfound
  dsimp only at hfound
  split at hfound
  · rename_i t
    split at hfound
    · cases hfound
    · rename_i hok
      cases hfound
      simp only [Bool.true_and, Bool.or_eq_true, decide_eq_true_eq, not_or] at hok
      exact ⟨Text.trim_trim t, hok.1, Nat.le_trans (Text.length_trim_le t) (Nat.le_of_not_lt hok.2)⟩
  · cases hfound

/-- A text that is not blank is trimmed. -/
theorem requiredName_string {s : String} (hshort : Text.length s ≤ 256) (hpresent : Text.trim s ≠ "")
    (name : String) : requiredName (.string s) name = .ok (Text.trim s) := by
  have htext : text (.string s) name true 256 = .ok (some s) := by
    simp [text, Value.isNullish, hpresent, Nat.not_lt.mpr hshort]
  rw [requiredName, htext]
  rfl

theorem requiredName_of_good {s : String} (h : GoodName s) (name : String) :
    requiredName (.string s) name = .ok s := by
  have hpresent : Text.trim s ≠ "" := by
    rw [h.trimmed]
    exact h.present
  rw [requiredName_string h.short hpresent, h.trimmed]

theorem text_short {v : Value} {name : String} {max : Nat} {found : Option String}
    (h : text v name false max = .ok found) : (Field.ofText? found).Short max := by
  intro s hs
  cases found with
  | none => cases hs
  | some t =>
    cases hs
    unfold text at h
    split at h
    · cases h
    · dsimp only at h
      split at h
      · split at h
        · cases h
        · rename_i hok
          cases h
          simp only [Bool.false_and, Bool.false_or, decide_eq_true_eq] at hok
          exact Nat.le_of_not_lt hok
      · cases h

theorem fieldIn_short {source : Resource UserAttribute} {a : UserAttribute} {max : Nat}
    {field : Field} (h : fieldIn source a max = .ok field) : field.Short max := by
  unfold fieldIn at h
  split at h
  · cases h
    intro s hs
    cases hs
  · rename_i v _
    cases htext : text v a.key false max with
    | error e =>
      rw [htext] at h
      cases h
    | ok found =>
      rw [htext] at h
      cases h
      exact text_short htext

/-- A field that a record has is read back. -/
theorem fieldIn_of_short {source : Resource UserAttribute} {a : UserAttribute} {max : Nat}
    {field : Field} (hsource : source a = field.toValue) (h : field.Short max) :
    fieldIn source a max = .ok field := by
  rw [fieldIn, hsource]
  cases field with
  | missing => rfl
  | undefined => rfl
  | value s =>
    change (text (.string s) a.key false max).map Field.ofText? = .ok (.value s)
    rw [text_string (h s rfl)]
    rfl

/-- A loop that computes something for every key. -/
theorem mapM_collected {κ ν : Type} [DecidableEq κ] {f : κ → Except Error ν} (otherwise : ν)
    {l : List κ} {entries : List (κ × ν)}
    (h : (l.mapM fun k => (f k).map fun x => (k, x)) = .ok entries) :
    ∀ k ∈ l, f k = .ok (collected otherwise entries k) := by
  induction l generalizing entries with
  | nil => simp
  | cons b l ih =>
    rw [List.mapM_cons, bind_eq_ok] at h
    obtain ⟨entry, hentry, h⟩ := h
    rw [bind_eq_ok] at h
    obtain ⟨rest, hrest, h⟩ := h
    cases h
    cases hb : f b with
    | error e =>
      rw [hb] at hentry
      cases hentry
    | ok x =>
      rw [hb] at hentry
      cases hentry
      intro k hk
      by_cases hkb : b = k
      · subst hkb
        rw [hb, collected, OrderedMap.lookup, if_pos rfl]
        rfl
      · have hmem := (List.mem_cons.mp hk).resolve_left (Ne.symm hkb)
        rw [ih hrest k hmem, collected, collected, OrderedMap.lookup, if_neg hkb]

theorem mapM_ok {κ ν : Type} {f : κ → Except Error ν} {g : κ → ν} {l : List κ}
    (h : ∀ k ∈ l, f k = .ok (g k)) :
    (l.mapM fun k => (f k).map fun x => (k, x)) = .ok (l.map fun k => (k, g k)) := by
  induction l with
  | nil => rfl
  | cons b l ih =>
    rw [List.mapM_cons, h b List.mem_cons_self,
      ih fun k hk => h k (List.mem_cons_of_mem _ hk)]
    rfl

theorem collected_map {κ ν : Type} [DecidableEq κ] (otherwise : ν) (g : κ → ν) {l : List κ} {k : κ}
    (hk : k ∈ l) : collected otherwise (l.map fun k => (k, g k)) k = g k := by
  induction l with
  | nil => cases hk
  | cons b l ih =>
    rw [collected, List.map_cons, OrderedMap.lookup]
    by_cases hb : b = k
    · subst hb
      rw [if_pos rfl]
      rfl
    · rw [if_neg hb]
      exact ih ((List.mem_cons.mp hk).resolve_left (Ne.symm hb))

/-- The object of a record, with the keys of its objects in any order. -/
structure Represents (r : Resource UserAttribute) (u : User) : Prop where
  userName : r .userName = some (.string u.userName)
  externalId : r .externalId = u.externalId.toValue
  active : r .active = some (.bool u.active)
  password : r .password = u.password.toValue
  text : ∀ a, r (.text a) = (u.text a).toValue
  noName : u.name = none → r .name = none
  name : ∀ c, u.name = some c → ∃ v, r .name = some v ∧ IsObject v c.sub
  noItems : ∀ a, u.multi a = none → r (.multi a) = none
  items : ∀ a items, u.multi a = some items →
    ∃ values, r (.multi a) = some (.array values) ∧ AreObjects values items

section Users

variable {source r : Resource UserAttribute} {u : User}

theorem normalizeName_good {name : Option Complex} (h : normalizeName source = .ok name) :
    ∀ c, name = some c → GoodTexts c := by
  rintro c rfl
  unfold normalizeName at h
  split at h
  · cases h
  · rename_i v _
    cases hv : normalizeComplex v "name" with
    | error e =>
      rw [hv] at h
      cases h
    | ok c' =>
      rw [hv] at h
      cases h
      exact normalizeComplex_good hv

theorem normalizeAttribute_good {a : MultiAttribute} {items : Option (List Item)}
    (h : normalizeAttribute source a = .ok items) : ∀ list, items = some list → GoodItems list := by
  rintro list rfl
  unfold normalizeAttribute at h
  split at h
  · cases h
  · rename_i v _
    cases hv : normalizeMulti v a.key with
    | error e =>
      rw [hv] at h
      cases h
    | ok items =>
      rw [hv] at h
      cases h
      exact normalizeMulti_good hv

theorem normalizePassword_short {existing : Option String} {field : Field}
    (hexisting : ∀ p, existing = some p → Text.length p ≤ 1024)
    (h : normalizePassword source existing = .ok field) : field.Short 1024 := by
  unfold normalizePassword at h
  split at h
  · cases h
    intro s hs
    cases hs
    exact hexisting _ rfl
  · exact fieldIn_short h

theorem normalizeUserSource_normal {existing : Option String}
    (hexisting : ∀ p, existing = some p → Text.length p ≤ 1024)
    (h : normalizeUserSource source existing = .ok u) : u.Normal := by
  simp only [normalizeUserSource, bind_eq_ok] at h
  obtain ⟨userName, huserName, externalId, hexternalId, texts, htexts, active, -, password,
    hpassword, name, hname, multi, hmulti, h⟩ := h
  cases h
  refine ⟨requiredName_good huserName, fieldIn_short hexternalId, ?_,
    normalizePassword_short hexisting hpassword, normalizeName_good hname, ?_⟩
  · intro a
    exact fieldIn_short (mapM_collected .missing htexts a a.mem_all)
  · intro a items hitems
    exact normalizeAttribute_good (mapM_collected none hmulti a a.mem_all) items hitems

theorem normalizeName_represents (hu : u.Normal) (hr : Represents r u) :
    ∃ name, normalizeName r = .ok name ∧ sameOption sameEntries name u.name = true := by
  cases hname : u.name with
  | none =>
    refine ⟨none, ?_, rfl⟩
    rw [normalizeName, hr.noName hname]
  | some c =>
    obtain ⟨v, hv, hobject⟩ := hr.name c hname
    obtain ⟨c', hc', hsame⟩ := normalizeComplex_object "name" (hu.name c hname) hobject
    refine ⟨some c', ?_, sameEntries_iff.mpr hsame⟩
    rw [normalizeName, hv]
    simp only [hc']
    rfl

theorem normalizeAttribute_represents (hu : u.Normal) (hr : Represents r u) (a : MultiAttribute) :
    ∃ items, normalizeAttribute r a = .ok items ∧ sameOption sameItems items (u.multi a) = true := by
  cases hitems : u.multi a with
  | none =>
    refine ⟨none, ?_, rfl⟩
    rw [normalizeAttribute, hr.noItems a hitems]
  | some items =>
    obtain ⟨values, hvalues, hobjects⟩ := hr.items a items hitems
    obtain ⟨items', hitems', hsame⟩ :=
      normalizeMulti_objects a.key (hu.multi a items hitems) hobjects
    refine ⟨some items', ?_, hsame⟩
    rw [normalizeAttribute, hvalues]
    simp only [hitems']
    rfl

theorem normalizePassword_represents (hu : u.Normal) (hr : Represents r u) {existing : Option String}
    (hexisting : u.password = .missing → existing = none) :
    normalizePassword r existing = .ok u.password := by
  have hfield := fieldIn_of_short hr.password hu.password
  have hpassword := hr.password
  unfold normalizePassword
  cases hp : u.password with
  | missing =>
    rw [hp] at hfield
    rw [hexisting hp]
    split
    · rename_i hnone
      cases hnone
    · exact hfield
  | undefined =>
    rw [hp] at hfield hpassword
    rw [hpassword]
    exact hfield
  | value s =>
    rw [hp] at hfield hpassword
    rw [hpassword]
    exact hfield

/-- The object of a normal record is normalised to that record. -/
theorem normalizeUserSource_represents (hu : u.Normal) (hr : Represents r u)
    {existing : Option String} (hexisting : u.password = .missing → existing = none) :
    ∃ n, normalizeUserSource r existing = .ok n ∧ n.deepEquals u = true := by
  obtain ⟨name, hname, hsameName⟩ := normalizeName_represents hu hr
  have hmulti : ∀ a, ∃ items, normalizeAttribute r a = .ok items ∧
      sameOption sameItems items (u.multi a) = true := normalizeAttribute_represents hu hr
  choose multi hmulti hsameMulti using hmulti
  have htexts : ∀ a ∈ TextAttribute.all, fieldIn r (.text a) = .ok (u.text a) :=
    fun a _ => fieldIn_of_short (hr.text a) (hu.text a)
  have hactive : normalizeActive r = .ok u.active := by rw [normalizeActive, hr.active]
  refine ⟨⟨u.userName, u.externalId, collected .missing (TextAttribute.all.map fun a => (a, u.text a)),
    u.active, u.password, name, collected none (MultiAttribute.all.map fun a => (a, multi a))⟩, ?_, ?_⟩
  · simp only [normalizeUserSource, hr.userName, Option.getD_some,
      requiredName_of_good hu.userName, fieldIn_of_short hr.externalId hu.externalId,
      mapM_ok htexts, hactive, normalizePassword_represents hu hr hexisting, hname,
      mapM_ok fun a (_ : a ∈ MultiAttribute.all) => hmulti a, bind, Except.bind, pure, Except.pure]
  · rw [User.deepEquals_iff]
    refine ⟨rfl, rfl, fun a => collected_map .missing u.text a.mem_all, rfl, rfl, hsameName, ?_⟩
    intro a
    dsimp only
    rw [collected_map none multi a.mem_all]
    exact hsameMulti a

end Users

theorem lookup_map_string (k : String) (entries : List (String × String)) :
    OrderedMap.lookup k (entries.map fun entry => (entry.1, Value.string entry.2)) =
      (OrderedMap.lookup k entries).map .string := by
  induction entries with
  | nil => rfl
  | cons entry rest ih =>
    rw [List.map_cons, OrderedMap.lookup, OrderedMap.lookup, ih]
    split <;> rfl

theorem map_fst_string (entries : List (String × String)) :
    (entries.map fun entry => (entry.1, Value.string entry.2)).map Prod.fst =
      entries.map Prod.fst := by
  rw [List.map_map]
  rfl

theorem isObject_complex (c : Complex) : IsObject c.toValue c.sub := by
  refine ⟨_, rfl, ?_, fun k => lookup_map_string k c.entries⟩
  rw [map_fst_string]
  exact c.nodup

theorem isObject_item {item : Item} (h : item.Good) : IsObject item.toValue item.sub := by
  have hkeys : "primary" ∉ item.texts.entries.map Prod.fst := by
    intro hmem
    obtain ⟨⟨k, s⟩, hmem, rfl⟩ := List.mem_map.mp hmem
    exact absurd ((OrderedMap.mem_entries_iff.mp hmem).symm.trans h.primary) (by simp)
  refine ⟨_, rfl, ?_, ?_⟩
  · rw [List.map_append, map_fst_string]
    cases item.primary with
    | none => exact item.texts.nodup
    | some b => exact List.nodup_cons.mpr ⟨hkeys, item.texts.nodup⟩
  · intro k
    have htexts := lookup_map_string k item.texts.entries
    cases hp : item.primary with
    | none =>
      rw [Item.sub, hp]
      by_cases hk : k = "primary"
      · subst hk
        rw [if_pos rfl]
        change OrderedMap.lookup _ (item.texts.entries.map _) = _
        rw [htexts, OrderedMap.lookup_eq_none hkeys]
        rfl
      · rw [if_neg hk]
        exact htexts
    | some b =>
      rw [Item.sub, hp]
      change OrderedMap.lookup k (("primary", Value.bool b) :: item.texts.entries.map _) = _
      rw [OrderedMap.lookup]
      by_cases hk : k = "primary"
      · subst hk
        rw [if_pos rfl, if_pos rfl]
        rfl
      · rw [if_neg (Ne.symm hk), if_neg hk]
        exact htexts

theorem areObjects_items {items : List Item} (h : GoodItems items) :
    AreObjects (items.map Item.toValue) items := by
  have hgood := h.good
  clear h
  induction items with
  | nil => exact .nil
  | cons item items ih =>
    rw [List.forall_mem_cons] at hgood
    exact .cons (isObject_item hgood.1) (ih hgood.2)

/-- A record whose items are good is represented by its object. -/
theorem User.represents {u : User} (h : ∀ a items, u.multi a = some items → GoodItems items) :
    Represents u.toResource u where
  userName := rfl
  externalId := rfl
  active := rfl
  password := rfl
  text _ := rfl
  noName hname := by rw [User.toResource, hname]; rfl
  name c hname := ⟨c.toValue, by rw [User.toResource, hname]; rfl, isObject_complex c⟩
  noItems a hitems := by rw [User.toResource, hitems]; rfl
  items a items hitems := ⟨items.map Item.toValue, by rw [User.toResource, hitems]; rfl,
    areObjects_items (h a items hitems)⟩

theorem canonical_user (lower : LowerCase) : Canonical lower userNames UserAttribute.key where
  names := canonicalUserAttribute_key lower
  writable a := by
    have hascii : ∀ a ∈ UserAttribute.all, Text.isAscii a.key = true := by decide
    have hkeys : ∀ a ∈ UserAttribute.all, lowerKey a.key ∉ ["schemas", "id", "meta", "groups"] := by
      decide
    rw [lower.ascii _ (hascii a a.mem_all)]
    exact hkeys a a.mem_all

theorem canonical_group (lower : LowerCase) : Canonical lower groupNames GroupAttribute.key where
  names := canonicalGroupAttribute_key lower
  writable a := by
    have hascii : ∀ a ∈ GroupAttribute.all, Text.isAscii a.key = true := by decide
    have hkeys : ∀ a ∈ GroupAttribute.all,
        lowerKey a.key ∉ ["schemas", "id", "meta", "groups"] := by decide
    rw [lower.ascii _ (hascii a a.mem_all)]
    exact hkeys a a.mem_all

/-- The result of `normalizeUser` is normal. -/
theorem normalizeUser_normal {lower : LowerCase} {input : Value} {existing : Option String}
    {u : User} (hexisting : ∀ p, existing = some p → Text.length p ≤ 1024)
    (h : normalizeUser lower input existing = .ok u) : u.Normal := by
  rw [normalizeUser, bind_eq_ok] at h
  obtain ⟨source, -, h⟩ := h
  exact normalizeUserSource_normal hexisting h

/-- The object of a normal record is normalised to that record. -/
theorem normalizeUser_represents (lower : LowerCase) {r : Resource UserAttribute} {u : User}
    (hu : u.Normal) (hr : Represents r u) {existing : Option String}
    (hexisting : u.password = .missing → existing = none) :
    ∃ n, normalizeUser lower (toObject UserAttribute.key UserAttribute.all r) existing = .ok n ∧
      n.deepEquals u = true := by
  rw [normalizeUser, canonicalInput_toObject (canonical_user lower) UserAttribute.mem_all]
  exact normalizeUserSource_represents hu hr hexisting

/-! ## Groups -/

structure Group.Normal (g : Group) : Prop where
  displayName : GoodName g.displayName
  externalId : g.externalId.Short 256
  members : ∀ value ∈ g.members, Text.trim value ≠ "" ∧ Text.length value ≤ 256
  distinct : g.members.Nodup

/-- The members of the object of a member. -/
def memberSub (value : String) (k : String) : Option Value :=
  if k = "value" then some (.string value) else if k = "type" then some (.string "User") else none

structure RepresentsGroup (r : Resource GroupAttribute) (g : Group) : Prop where
  displayName : r .displayName = some (.string g.displayName)
  externalId : r .externalId = g.externalId.toValue
  members : ∃ values, r .members = some (.array values) ∧
    List.Forall₂ (fun v value => IsObject v (memberSub value)) values g.members

theorem Group.represents (g : Group) : RepresentsGroup g.toResource g where
  displayName := rfl
  externalId := rfl
  members := by
    refine ⟨_, rfl, ?_⟩
    induction g.members with
    | nil => exact .nil
    | cons value members ih =>
      refine .cons ⟨_, rfl, by simp, fun k => ?_⟩ ih
      simp only [OrderedMap.lookup, memberSub, eq_comm]

theorem normalizeMember_ok {index : Nat} {seen : List String} {entry : Value} {value : String}
    (h : normalizeMember index seen entry = .ok value) :
    value ∉ seen ∧ Text.trim value ≠ "" ∧ Text.length value ≤ 256 := by
  simp only [normalizeMember, bind_eq_ok] at h
  obtain ⟨_, -, found, hfound, h⟩ := h
  have hgood : Text.trim (found.getD "") ≠ "" ∧ Text.length (found.getD "") ≤ 256 := by
    unfold text at hfound
    rw [if_neg (by simp)] at hfound
    dsimp only at hfound
    split at hfound
    · split at hfound
      · cases hfound
      · rename_i hok
        cases hfound
        simp only [Bool.true_and, Bool.or_eq_true, decide_eq_true_eq, not_or] at hok
        exact ⟨hok.1, Nat.le_of_not_lt hok.2⟩
    · cases hfound
  split at h
  · cases h
  · rename_i hnew
    split at h
    · cases h
    · split at h
      · cases h
      · cases h
        exact ⟨hnew, hgood⟩

theorem normalizeMembers_ok {index : Nat} {seen : List String} {entries : List Value}
    {values : List String} (h : normalizeMembers index seen entries = .ok values) :
    (∀ value ∈ values, value ∉ seen ∧ Text.trim value ≠ "" ∧ Text.length value ≤ 256) ∧
      values.Nodup := by
  induction entries generalizing index seen values with
  | nil =>
    cases h
    simp
  | cons entry entries ih =>
    simp only [normalizeMembers, bind_eq_ok] at h
    obtain ⟨value, hvalue, rest, hrest, h⟩ := h
    cases h
    obtain ⟨hall, hnodup⟩ := ih hrest
    rw [List.forall_mem_cons, List.nodup_cons]
    refine ⟨⟨normalizeMember_ok hvalue, fun v hv => ?_⟩, fun hmem => ?_, hnodup⟩
    · exact ⟨fun hseen => (hall v hv).1 (List.mem_cons_of_mem _ hseen), (hall v hv).2⟩
    · exact (hall value hmem).1 List.mem_cons_self

def groupExternalId (source : Resource GroupAttribute) : Except Error Field :=
  match source .externalId with
  | none => .ok .missing
  | some value => (text value "externalId" false 256).map Field.ofText?

def groupMembers (source : Resource GroupAttribute) : Except Error (List String) :=
  match source .members with
  | none => .ok []
  | some (.array entries) => normalizeMembers 0 [] entries
  | some _ => .error (invalidValue "members must be an array.")

theorem normalizeGroupSource_eq (source : Resource GroupAttribute) :
    normalizeGroupSource source = (do
      let displayName ← requiredName ((source .displayName).getD .undefined) "displayName"
      let externalId ← groupExternalId source
      let members ← groupMembers source
      return ⟨displayName, externalId, members⟩) := by
  unfold normalizeGroupSource groupExternalId groupMembers
  congr 1
  funext displayName
  cases source .externalId <;> dsimp only <;> congr 1 <;> funext externalId <;>
    cases source .members with
    | none => rfl
    | some v => cases v <;> rfl

theorem normalizeGroup_normal {lower : LowerCase} {input : Value} {g : Group}
    (h : normalizeGroup lower input = .ok g) : g.Normal := by
  simp only [normalizeGroup, normalizeGroupSource_eq, bind_eq_ok] at h
  obtain ⟨source, -, displayName, hname, externalId, hexternalId, members, hmembers, h⟩ := h
  cases h
  unfold groupMembers at hmembers
  unfold groupExternalId at hexternalId
  have hlist : (∀ value ∈ members, Text.trim value ≠ "" ∧ Text.length value ≤ 256) ∧
      members.Nodup := by
    split at hmembers
    · cases hmembers
      simp
    · obtain ⟨hall, hnodup⟩ := normalizeMembers_ok hmembers
      exact ⟨fun v hv => (hall v hv).2, hnodup⟩
    · cases hmembers
  refine ⟨requiredName_good hname, ?_, hlist.1, hlist.2⟩
  split at hexternalId
  · cases hexternalId
    intro s hs
    cases hs
  · rename_i v _
    cases htext : text v "externalId" false 256 with
    | error e =>
      rw [htext] at hexternalId
      cases hexternalId
    | ok found =>
      rw [htext] at hexternalId
      cases hexternalId
      exact text_short htext

theorem normalizeMember_object {index : Nat} {seen : List String} {v : Value} {value : String}
    (hv : IsObject v (memberSub value)) (hnew : value ∉ seen)
    (hgood : Text.trim value ≠ "" ∧ Text.length value ≤ 256) :
    normalizeMember index seen v = .ok value := by
  obtain ⟨entries, rfl, -, hlookup⟩ := hv
  have hvalue : Value.get "value" (.object entries) = .string value := by
    rw [Value.get, hlookup]
    rfl
  have htype : Value.get "type" (.object entries) = .string "User" := by
    rw [Value.get, hlookup]
    rfl
  have huser : lowerKey "User" = "user" := by decide
  simp [normalizeMember, object, hvalue, htype, text, Value.isNullish, Value.text?, hgood.1,
    Nat.not_lt.mpr hgood.2, hnew, huser, bind, Except.bind, pure, Except.pure]

theorem normalizeMembers_objects {values : List Value} {members : List String}
    (hv : List.Forall₂ (fun v value => IsObject v (memberSub value)) values members)
    (hgood : ∀ value ∈ members, Text.trim value ≠ "" ∧ Text.length value ≤ 256)
    (hnodup : members.Nodup) (index : Nat) (seen : List String)
    (hnew : ∀ value ∈ members, value ∉ seen) :
    normalizeMembers index seen values = .ok members := by
  induction hv generalizing index seen with
  | nil => rfl
  | @cons v value values members hfirst _ ih =>
    rw [List.forall_mem_cons] at hgood hnew
    rw [List.nodup_cons] at hnodup
    have hrest := ih hgood.2 hnodup.2 (index + 1) (value :: seen) fun w hw hmem => by
      rcases List.mem_cons.mp hmem with rfl | hmem
      · exact hnodup.1 hw
      · exact hnew.2 w hw hmem
    simp only [normalizeMembers, normalizeMember_object hfirst hnew.1 hgood.1, hrest, bind,
      Except.bind, pure, Except.pure]

/-- The object of a normal record is normalised to that record. -/
theorem normalizeGroup_represents (lower : LowerCase) {r : Resource GroupAttribute} {g : Group}
    (hg : g.Normal) (hr : RepresentsGroup r g) :
    normalizeGroup lower (toObject GroupAttribute.key GroupAttribute.all r) = .ok g := by
  obtain ⟨values, hvalues, hobjects⟩ := hr.members
  have hexternalId : groupExternalId r = .ok g.externalId := by
    rw [groupExternalId, hr.externalId]
    have hshort := hg.externalId
    cases hfield : g.externalId with
    | missing => rfl
    | undefined => rfl
    | value s =>
      change (text (.string s) "externalId" false 256).map Field.ofText? = .ok (.value s)
      rw [text_string (hshort s hfield)]
      rfl
  have hmembers : groupMembers r = .ok g.members := by
    rw [groupMembers, hvalues]
    exact normalizeMembers_objects hobjects hg.members hg.distinct 0 [] fun _ _ => List.not_mem_nil
  rw [normalizeGroup, canonicalInput_toObject (canonical_group lower) GroupAttribute.mem_all]
  simp only [normalizeGroupSource_eq, bind_eq_ok]
  refine ⟨r, rfl, g.displayName, ?_, g.externalId, hexternalId, g.members, hmembers, rfl⟩
  rw [hr.displayName]
  exact requiredName_of_good hg.displayName "displayName"

end Scim

end AuthMe

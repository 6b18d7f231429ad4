import Mathlib.Data.List.Nodup
import Mathlib.Data.List.Basic

/-!
# Insertion-ordered maps

`OrderedMap κ ν` is a finite map that remembers the order in which its keys were first
set. Setting a key that is present keeps its place, a new key goes to the end. This is
the order in which a JavaScript `Map` is iterated, and a table with a primary key is the
same thing when the order is ignored. No key occurs twice: the type carries it.

The operations are read through `get?`: `get?_set`, `get?_erase` and `get?_filter`
rewrite every lookup, and `findFirst?` (the first entry that satisfies a test) is tied to
`get?` by `get?_of_findFirst?` and survives a filter that keeps its result
(`findFirst?_filter`).
-/

/-- A finite map in insertion order, without duplicate keys. -/
structure OrderedMap (κ ν : Type*) where
  entries : List (κ × ν)
  nodup : (entries.map Prod.fst).Nodup

namespace OrderedMap

variable {κ ν : Type*} [DecidableEq κ]

/-- The map without entries. -/
def empty : OrderedMap κ ν := ⟨[], List.nodup_nil⟩

/-- Looks a key up in a list of entries. -/
def lookup (k : κ) : List (κ × ν) → Option ν
  | [] => none
  | x :: xs => if x.1 = k then some x.2 else lookup k xs

def get? (m : OrderedMap κ ν) (k : κ) : Option ν := lookup k m.entries

/-- Replaces the value at a key, in place, or appends the key. -/
def put (k : κ) (v : ν) : List (κ × ν) → List (κ × ν)
  | [] => [(k, v)]
  | x :: xs => if x.1 = k then (k, v) :: xs else x :: put k v xs

theorem mem_keys_put {k : κ} {v : ν} {xs : List (κ × ν)} {a : κ}
    (h : a ∈ (put k v xs).map Prod.fst) : a = k ∨ a ∈ xs.map Prod.fst := by
  induction xs with
  | nil => exact Or.inl (by simpa [put] using h)
  | cons x xs ih =>
    unfold put at h
    split at h
    · rename_i hx
      rcases List.mem_cons.mp h with h | h
      · exact Or.inl h
      · exact Or.inr (List.mem_cons_of_mem _ h)
    · rcases List.mem_cons.mp h with h | h
      · exact Or.inr (by simp [h])
      · exact (ih h).imp_right (List.mem_cons_of_mem _)

theorem nodup_put (k : κ) (v : ν) {xs : List (κ × ν)} (h : (xs.map Prod.fst).Nodup) :
    ((put k v xs).map Prod.fst).Nodup := by
  induction xs with
  | nil => simp [put]
  | cons x xs ih =>
    rw [List.map_cons, List.nodup_cons] at h
    unfold put
    split
    · rename_i hx
      rw [List.map_cons, List.nodup_cons, ← hx]
      exact h
    · rename_i hx
      rw [List.map_cons, List.nodup_cons]
      refine ⟨fun hm => ?_, ih h.2⟩
      rcases mem_keys_put hm with hk | hm
      · exact hx hk
      · exact h.1 hm

def set (m : OrderedMap κ ν) (k : κ) (v : ν) : OrderedMap κ ν :=
  ⟨put k v m.entries, nodup_put k v m.nodup⟩

/-- Keeps the entries that satisfy the test. -/
def filter (m : OrderedMap κ ν) (p : κ → ν → Bool) : OrderedMap κ ν :=
  ⟨m.entries.filter fun x => p x.1 x.2,
    m.nodup.sublist (List.filter_sublist.map Prod.fst)⟩

def erase (m : OrderedMap κ ν) (k : κ) : OrderedMap κ ν :=
  m.filter fun a _ => decide (a ≠ k)

/-- Changes every value in its place. -/
def mapValues (m : OrderedMap κ ν) (f : ν → ν) : OrderedMap κ ν :=
  ⟨m.entries.map fun x => (x.1, f x.2), by
    simpa only [List.map_map, Function.comp_def] using m.nodup⟩

/-- The first entry, in insertion order, that satisfies the test. -/
def findFirst? (m : OrderedMap κ ν) (p : κ → ν → Bool) : Option (κ × ν) :=
  m.entries.find? fun x => p x.1 x.2

/-! ## Lookups -/

theorem lookup_put (k a : κ) (v : ν) (xs : List (κ × ν)) :
    lookup a (put k v xs) = if a = k then some v else lookup a xs := by
  induction xs with
  | nil =>
    by_cases h : a = k
    · simp [put, lookup, h]
    · simp [put, lookup, h, Ne.symm h]
  | cons x xs ih =>
    unfold put
    by_cases hx : x.1 = k
    · by_cases h : a = k
      · simp [lookup, hx, h]
      · simp [lookup, hx, h, Ne.symm h]
    · by_cases hxa : x.1 = a
      · have hak : a ≠ k := hxa ▸ hx
        simp [lookup, hxa, hak]
      · simp [lookup, hx, hxa, ih]

@[simp] theorem get?_empty (k : κ) : (empty : OrderedMap κ ν).get? k = none := rfl

theorem get?_set (m : OrderedMap κ ν) (k a : κ) (v : ν) :
    (m.set k v).get? a = if a = k then some v else m.get? a := lookup_put k a v m.entries

@[simp] theorem get?_set_self (m : OrderedMap κ ν) (k : κ) (v : ν) :
    (m.set k v).get? k = some v := by simp [get?_set]

theorem get?_set_of_ne (m : OrderedMap κ ν) {k a : κ} (h : a ≠ k) (v : ν) :
    (m.set k v).get? a = m.get? a := by simp [get?_set, h]

theorem lookup_eq_none {k : κ} {xs : List (κ × ν)} (h : k ∉ xs.map Prod.fst) :
    lookup k xs = none := by
  induction xs with
  | nil => rfl
  | cons x xs ih =>
    rw [List.map_cons, List.mem_cons, not_or] at h
    rw [lookup, if_neg (Ne.symm h.1), ih h.2]

theorem lookup_filter {xs : List (κ × ν)} (h : (xs.map Prod.fst).Nodup) (p : κ → ν → Bool)
    (k : κ) : lookup k (xs.filter fun x => p x.1 x.2) = (lookup k xs).filter (p k) := by
  induction xs with
  | nil => rfl
  | cons x xs ih =>
    rw [List.map_cons, List.nodup_cons] at h
    by_cases hx : x.1 = k
    · subst hx
      have hnone : lookup x.1 xs = none := lookup_eq_none h.1
      by_cases hp : p x.1 x.2 = true
      · simp [lookup, Option.filter, hp]
      · simp [lookup, Option.filter, hp, ih h.2, hnone]
    · by_cases hp : p x.1 x.2 = true
      · simp [lookup, hp, hx, ih h.2]
      · simp [lookup, hp, hx, ih h.2]

theorem get?_filter (m : OrderedMap κ ν) (p : κ → ν → Bool) (k : κ) :
    (m.filter p).get? k = (m.get? k).filter (p k) := lookup_filter m.nodup p k

theorem get?_erase (m : OrderedMap κ ν) (k a : κ) :
    (m.erase k).get? a = if a = k then none else m.get? a := by
  rw [erase, get?_filter]
  cases m.get? a <;> by_cases h : a = k <;> simp [Option.filter, h]

@[simp] theorem get?_erase_self (m : OrderedMap κ ν) (k : κ) : (m.erase k).get? k = none := by
  simp [get?_erase]

theorem get?_erase_of_ne (m : OrderedMap κ ν) {k a : κ} (h : a ≠ k) :
    (m.erase k).get? a = m.get? a := by simp [get?_erase, h]

theorem get?_mapValues (m : OrderedMap κ ν) (f : ν → ν) (k : κ) :
    (m.mapValues f).get? k = (m.get? k).map f := by
  change lookup k (m.entries.map fun x => (x.1, f x.2)) = (lookup k m.entries).map f
  induction m.entries with
  | nil => rfl
  | cons x xs ih =>
    rw [List.map_cons, lookup, lookup]
    by_cases h : x.1 = k
    · simp [h]
    · simp [h, ih]

theorem lookup_of_mem {xs : List (κ × ν)} (h : (xs.map Prod.fst).Nodup) {k : κ} {v : ν}
    (hm : (k, v) ∈ xs) : lookup k xs = some v := by
  induction xs with
  | nil => cases hm
  | cons x xs ih =>
    rw [List.map_cons, List.nodup_cons] at h
    rcases List.mem_cons.mp hm with rfl | hm
    · simp [lookup]
    · have hne : x.1 ≠ k := fun hx => h.1 (hx ▸ List.mem_map_of_mem hm)
      rw [lookup, if_neg hne, ih h.2 hm]

theorem mem_of_lookup {xs : List (κ × ν)} {k : κ} {v : ν} (h : lookup k xs = some v) :
    (k, v) ∈ xs := by
  induction xs with
  | nil => cases h
  | cons x xs ih =>
    unfold lookup at h
    split at h
    · rename_i hx
      cases h
      rw [← hx]
      exact List.mem_cons_self
    · exact List.mem_cons_of_mem _ (ih h)

theorem mem_entries_iff {m : OrderedMap κ ν} {k : κ} {v : ν} :
    (k, v) ∈ m.entries ↔ m.get? k = some v :=
  ⟨lookup_of_mem m.nodup, mem_of_lookup⟩

theorem get?_of_findFirst? {m : OrderedMap κ ν} {p : κ → ν → Bool} {k : κ} {v : ν}
    (h : m.findFirst? p = some (k, v)) : m.get? k = some v ∧ p k v = true :=
  ⟨mem_entries_iff.mp (List.mem_of_find?_eq_some h), by simpa using List.find?_some h⟩

omit [DecidableEq κ] in
/-- An entry that a filter keeps is still the first one found after the filter. -/
theorem findFirst?_filter {m : OrderedMap κ ν} {p q : κ → ν → Bool} {k : κ} {v : ν}
    (h : m.findFirst? p = some (k, v)) (hq : q k v = true) :
    (m.filter q).findFirst? p = some (k, v) := by
  change (m.entries.filter fun x => q x.1 x.2).find? (fun x => p x.1 x.2) = some (k, v)
  change m.entries.find? (fun x => p x.1 x.2) = some (k, v) at h
  generalize m.entries = xs at h ⊢
  induction xs with
  | nil => cases h
  | cons x xs ih =>
    rw [List.find?_cons] at h
    split at h
    · rename_i hx
      cases h
      simp [hq, hx]
    · rename_i hx
      by_cases hqx : q x.1 x.2 = true
      · simp only [List.filter_cons, hqx, if_true, List.find?_cons, hx]
        exact ih h
      · simp only [List.filter_cons, hqx]
        exact ih h

omit [DecidableEq κ] in
/-- A filter that keeps every entry that satisfies the test does not matter. -/
theorem findFirst?_filter_of_imp {m : OrderedMap κ ν} {p q : κ → ν → Bool}
    (h : ∀ x ∈ m.entries, p x.1 x.2 = true → q x.1 x.2 = true) :
    (m.filter q).findFirst? p = m.findFirst? p := by
  change (m.entries.filter fun x => q x.1 x.2).find? (fun x => p x.1 x.2) =
    m.entries.find? fun x => p x.1 x.2
  generalize m.entries = xs at h ⊢
  induction xs with
  | nil => rfl
  | cons x xs ih =>
    have ih' := ih fun y hy => h y (List.mem_cons_of_mem _ hy)
    by_cases hp : p x.1 x.2 = true
    · simp [hp, h x List.mem_cons_self hp]
    · by_cases hq : q x.1 x.2 = true
      · simp [hp, hq, ih']
      · simp [hp, hq, ih']

/-- The only entry that satisfies the test is the first one. -/
theorem findFirst?_eq_some {m : OrderedMap κ ν} {p : κ → ν → Bool} {k : κ} {v : ν}
    (hget : m.get? k = some v) (hp : p k v = true)
    (hunique : ∀ k' v', m.get? k' = some v' → p k' v' = true → k' = k) :
    m.findFirst? p = some (k, v) := by
  cases hf : m.findFirst? p with
  | none =>
    exact absurd hp (List.find?_eq_none.mp hf (k, v) (mem_entries_iff.mpr hget))
  | some x =>
    obtain ⟨hget', hp'⟩ := get?_of_findFirst? (k := x.1) (v := x.2) hf
    have hk := hunique _ _ hget' hp'
    rw [hk, hget] at hget'
    cases hget'
    rw [← hk]

/-- A test that only one key can meet is a test of its value. -/
theorem findFirst?_of_key {m : OrderedMap κ ν} {p : κ → ν → Bool} {k : κ}
    (hp : ∀ k' v, p k' v = true → k' = k) :
    m.findFirst? p = ((m.get? k).filter (p k)).map fun v => (k, v) := by
  cases hfilter : (m.get? k).filter (p k) with
  | some v =>
    obtain ⟨hget, hv⟩ := Option.filter_eq_some_iff.mp hfilter
    exact findFirst?_eq_some hget hv fun k' v' _ => hp k' v'
  | none =>
    cases hf : m.findFirst? p with
    | none => rfl
    | some x =>
      obtain ⟨hget, hx⟩ := get?_of_findFirst? (k := x.1) (v := x.2) hf
      have hk := hp _ _ hx
      rw [hk] at hget hx
      rw [hget, Option.filter, if_pos hx] at hfilter
      cases hfilter

/-! ## Several assignments -/

/-- Assigns the entries one after the other. -/
def putAll (es xs : List (κ × ν)) : List (κ × ν) := es.foldl (fun xs e => put e.1 e.2 xs) xs

theorem put_put_self (k : κ) (v w : ν) (xs : List (κ × ν)) : put k v (put k w xs) = put k v xs := by
  induction xs with
  | nil => simp [put]
  | cons x xs ih =>
    by_cases hx : x.1 = k
    · simp [put, hx]
    · simp [put, hx, ih]

theorem set_set (m : OrderedMap κ ν) (k : κ) (v w : ν) : (m.set k w).set k v = m.set k v := by
  simp only [set, put_put_self]

theorem put_comm {j k : κ} (hne : j ≠ k) (v w : ν) {xs : List (κ × ν)}
    (hk : (lookup k xs).isSome) : put j w (put k v xs) = put k v (put j w xs) := by
  induction xs with
  | nil => cases hk
  | cons x xs ih =>
    by_cases hx : x.1 = k
    · simp [put, hx, Ne.symm hne]
    · have hrest : (lookup k xs).isSome := by simpa [lookup, hx] using hk
      by_cases hj : x.1 = j
      · simp [put, hj, hne]
      · simp [put, hx, hj, ih hrest]

theorem put_of_lookup {k : κ} {v : ν} {xs : List (κ × ν)} (h : lookup k xs = some v) :
    put k v xs = xs := by
  induction xs with
  | nil => cases h
  | cons x xs ih =>
    by_cases hx : x.1 = k
    · rw [lookup, if_pos hx] at h
      cases h
      cases hx
      rw [put, if_pos rfl]
    · rw [lookup, if_neg hx] at h
      rw [put, if_neg hx, ih h]

theorem lookup_putAll_of_not_mem {k : κ} {es xs : List (κ × ν)} (h : k ∉ es.map Prod.fst) :
    lookup k (putAll es xs) = lookup k xs := by
  induction es generalizing xs with
  | nil => rfl
  | cons e es ih =>
    rw [List.map_cons, List.mem_cons, not_or] at h
    change lookup k (putAll es (put e.1 e.2 xs)) = lookup k xs
    rw [ih h.2, lookup_put, if_neg h.1]

/-- Of distinct keys, the assigned ones win. -/
theorem lookup_putAll {k : κ} {es : List (κ × ν)} (h : (es.map Prod.fst).Nodup)
    (xs : List (κ × ν)) : lookup k (putAll es xs) = (lookup k es).or (lookup k xs) := by
  induction es generalizing xs with
  | nil => rfl
  | cons e es ih =>
    rw [List.map_cons, List.nodup_cons] at h
    change lookup k (putAll es (put e.1 e.2 xs)) = _
    rw [ih h.2, lookup_put, lookup]
    by_cases hk : e.1 = k
    · subst hk
      rw [lookup_eq_none h.1, if_pos rfl, if_pos rfl]
      rfl
    · rw [if_neg (Ne.symm hk), if_neg hk]

theorem nodup_putAll (es : List (κ × ν)) {xs : List (κ × ν)} (h : (xs.map Prod.fst).Nodup) :
    ((putAll es xs).map Prod.fst).Nodup := by
  induction es generalizing xs with
  | nil => exact h
  | cons e es ih => exact ih (nodup_put e.1 e.2 h)

/-- `{ ...m, ...n }`. -/
def spread (m n : OrderedMap κ ν) : OrderedMap κ ν :=
  ⟨putAll n.entries m.entries, nodup_putAll n.entries m.nodup⟩

theorem get?_spread (m n : OrderedMap κ ν) (k : κ) :
    (m.spread n).get? k = (n.get? k).or (m.get? k) := lookup_putAll n.nodup m.entries

/-- A key that is there stays there. -/
theorem isSome_lookup_putAll {k : κ} {es xs : List (κ × ν)} (h : (lookup k xs).isSome) :
    (lookup k (putAll es xs)).isSome := by
  induction es generalizing xs with
  | nil => exact h
  | cons e es ih =>
    apply ih
    rw [lookup_put]
    split
    · rfl
    · exact h

/-- An assignment that is overwritten leaves no trace. -/
theorem putAll_put {k : κ} {es xs : List (κ × ν)} (hk : k ∈ es.map Prod.fst) (v : ν)
    (hxs : (lookup k xs).isSome) : putAll es (put k v xs) = putAll es xs := by
  induction es generalizing xs with
  | nil => cases hk
  | cons e es ih =>
    change putAll es (put e.1 e.2 (put k v xs)) = putAll es (put e.1 e.2 xs)
    by_cases he : e.1 = k
    · rw [he, put_put_self]
    · have hk' : k ∈ es.map Prod.fst := (List.mem_cons.mp hk).resolve_left (Ne.symm he)
      rw [put_comm he v e.2 hxs, ih hk']
      rw [lookup_put, if_neg (Ne.symm he)]
      exact hxs

/-- The second time the assignments change nothing. -/
theorem putAll_putAll (es xs : List (κ × ν)) : putAll es (putAll es xs) = putAll es xs := by
  induction es generalizing xs with
  | nil => rfl
  | cons e es ih =>
    change putAll es (put e.1 e.2 (putAll es (put e.1 e.2 xs))) = putAll es (put e.1 e.2 xs)
    have hself := ih (put e.1 e.2 xs)
    by_cases hmem : e.1 ∈ es.map Prod.fst
    · rw [putAll_put hmem, hself]
      apply isSome_lookup_putAll
      rw [lookup_put, if_pos rfl]
      rfl
    · rw [put_of_lookup, hself]
      rw [lookup_putAll_of_not_mem hmem, lookup_put, if_pos rfl]

end OrderedMap

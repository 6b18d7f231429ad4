import AuthMe.Collections.OrderedMap

/-!
# Tables

A table is a map whose rows carry their keys: every row is stored under the key that `keyOf`
reads off it, and the type says so. Rows are inserted under their own key, replacing the row that
was there.
-/

/-- Rows in insertion order, each stored under its own key. -/
structure Table (κ ν : Type) [DecidableEq κ] (keyOf : ν → κ) where
  map : OrderedMap κ ν
  keyed : ∀ k v, map.get? k = some v → keyOf v = k

namespace Table

variable {κ ν : Type} [DecidableEq κ] {keyOf : ν → κ}

def empty : Table κ ν keyOf := ⟨.empty, by simp⟩

def get? (t : Table κ ν keyOf) (k : κ) : Option ν := t.map.get? k

/-- The rows, in insertion order. -/
def rows (t : Table κ ν keyOf) : List ν := t.map.entries.map Prod.snd

def insert (t : Table κ ν keyOf) (v : ν) : Table κ ν keyOf where
  map := t.map.set (keyOf v) v
  keyed := by
    intro k w h
    rw [OrderedMap.get?_set] at h
    split at h
    · rename_i hk
      cases h
      exact hk.symm
    · exact t.keyed k w h

def filter (t : Table κ ν keyOf) (p : ν → Bool) : Table κ ν keyOf where
  map := t.map.filter fun _ v => p v
  keyed := by
    intro k w h
    rw [OrderedMap.get?_filter, Option.filter_eq_some_iff] at h
    exact t.keyed k w h.1

def erase (t : Table κ ν keyOf) (k : κ) : Table κ ν keyOf where
  map := t.map.erase k
  keyed := by
    intro a w h
    rw [OrderedMap.get?_erase] at h
    split at h
    · cases h
    · exact t.keyed a w h

/-- Changes the rows that satisfy the test, and no keys. -/
def update (t : Table κ ν keyOf) (p : ν → Bool) (f : ν → ν) (hf : ∀ v, keyOf (f v) = keyOf v) :
    Table κ ν keyOf where
  map := t.map.mapValues fun v => if p v then f v else v
  keyed := by
    intro k w h
    rw [OrderedMap.get?_mapValues] at h
    obtain ⟨v, hv, rfl⟩ := Option.map_eq_some_iff.mp h
    have hkey := t.keyed k v hv
    split
    · rw [hf, hkey]
    · exact hkey

variable (t : Table κ ν keyOf) (v : ν)

theorem keyOf_of_get? {t : Table κ ν keyOf} {k : κ} {v : ν} (h : t.get? k = some v) :
    keyOf v = k := t.keyed k v h

@[simp] theorem get?_empty (k : κ) : (empty : Table κ ν keyOf).get? k = none := rfl

theorem get?_insert (a : κ) : (t.insert v).get? a = if a = keyOf v then some v else t.get? a :=
  OrderedMap.get?_set t.map (keyOf v) a v

theorem get?_filter (p : ν → Bool) (k : κ) : (t.filter p).get? k = (t.get? k).filter p :=
  OrderedMap.get?_filter t.map (fun _ v => p v) k

theorem get?_erase (k a : κ) : (t.erase k).get? a = if a = k then none else t.get? a :=
  OrderedMap.get?_erase t.map k a

theorem get?_update (p : ν → Bool) (f : ν → ν) (hf : ∀ v, keyOf (f v) = keyOf v) (k : κ) :
    (t.update p f hf).get? k = (t.get? k).map fun v => if p v then f v else v :=
  OrderedMap.get?_mapValues t.map _ k

theorem mem_rows_iff {t : Table κ ν keyOf} {v : ν} : v ∈ t.rows ↔ t.get? (keyOf v) = some v := by
  simp only [rows, List.mem_map, Prod.exists, exists_eq_right]
  constructor
  · rintro ⟨k, hk⟩
    have hget := OrderedMap.mem_entries_iff.mp hk
    rw [t.keyed k v hget]
    exact hget
  · intro h
    exact ⟨keyOf v, OrderedMap.mem_entries_iff.mpr h⟩

theorem rows_keys : t.rows.map keyOf = t.map.entries.map Prod.fst := by
  rw [rows, List.map_map]
  apply List.map_congr_left
  intro x hx
  exact t.keyed x.1 x.2 (OrderedMap.mem_entries_iff.mp hx)

/-- No two rows have one key. -/
theorem nodup_rows_keys : (t.rows.map keyOf).Nodup := by
  rw [rows_keys]
  exact t.map.nodup

end Table

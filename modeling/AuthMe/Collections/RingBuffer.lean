import Mathlib.Data.Nat.ModEq
import Mathlib.Data.List.Range

/-!
# Ring buffers

A queue of fixed capacity in a circular array. The elements are the `length` cells from
`head` on; `tail` is the cell after the last one. `push` and `shift` are a queue's:

* `push_eq_some`, `push_eq_none`: a value is appended, unless the buffer is full;
* `shift_eq_some`, `shift_eq_none`: the first value is taken out, unless there is none.
-/

/-- A queue in an array whose cells from `head` on are filled. -/
structure RingBuffer (α : Type*) where
  capacity : Nat
  items : Array (Option α)
  head : Nat
  tail : Nat
  length : Nat
  size_items : items.size = capacity
  length_le : length ≤ capacity
  head_lt : 0 < capacity → head < capacity
  tail_eq : 0 < capacity → tail = (head + length) % capacity
  filled : ∀ i < length, ∃ v, items[(head + i) % capacity]? = some (some v)

namespace RingBuffer

variable {α : Type*}

/-- A circular offset is the offset of one cell. -/
theorem offset_inj {capacity head i j : Nat} (hi : i < capacity) (hj : j < capacity)
    (h : (head + i) % capacity = (head + j) % capacity) : i = j := by
  have hmod : i ≡ j [MOD capacity] := Nat.ModEq.add_left_cancel' head h
  exact hmod.eq_of_lt_of_lt hi hj

theorem offset_succ (capacity head i : Nat) :
    ((head + 1) % capacity + i) % capacity = (head + (i + 1)) % capacity := by
  rw [Nat.mod_add_mod]
  congr 1
  omega

/-- No element. -/
def empty (capacity : Nat) : RingBuffer α where
  capacity := capacity
  items := Array.replicate capacity none
  head := 0
  tail := 0
  length := 0
  size_items := Array.size_replicate
  length_le := Nat.zero_le _
  head_lt h := h
  tail_eq _ := (Nat.zero_mod _).symm
  filled i hi := absurd hi (Nat.not_lt_zero i)

/-- The value in the cell at an offset from the head. -/
def cell (q : RingBuffer α) (i : Nat) : Option α := (q.items[(q.head + i) % q.capacity]?).join

/-- The elements, from the head on. -/
def toList (q : RingBuffer α) : List α := (List.range q.length).filterMap q.cell

theorem cell_eq_some (q : RingBuffer α) {i : Nat} (hi : i < q.length) : ∃ v, q.cell i = some v := by
  obtain ⟨v, hv⟩ := q.filled i hi
  exact ⟨v, by simp [cell, hv]⟩

@[simp] theorem toList_empty (capacity : Nat) : (empty capacity : RingBuffer α).toList = [] := rfl

@[simp] theorem length_toList (q : RingBuffer α) : q.toList.length = q.length := by
  have hall : ∀ n ≤ q.length, ((List.range n).filterMap q.cell).length = n := by
    intro n hn
    induction n with
    | zero => rfl
    | succ n ih =>
      obtain ⟨v, hv⟩ := q.cell_eq_some (Nat.lt_of_succ_le hn)
      rw [List.range_succ, List.filterMap_append, List.length_append, ih (by omega)]
      simp [hv]
  exact hall q.length (Nat.le_refl _)

/-! ## push -/

/-- Appends a value, unless the buffer is full. -/
def push (q : RingBuffer α) (v : α) : Option (RingBuffer α) :=
  if h : q.length = q.capacity then none
  else
    have hlt : q.length < q.capacity := Nat.lt_of_le_of_ne q.length_le h
    have hpos : 0 < q.capacity := Nat.zero_lt_of_lt hlt
    some {
      capacity := q.capacity
      items := q.items.setIfInBounds q.tail (some v)
      head := q.head
      tail := (q.tail + 1) % q.capacity
      length := q.length + 1
      size_items := by rw [Array.size_setIfInBounds, q.size_items]
      length_le := hlt
      head_lt := q.head_lt
      tail_eq := fun _ => by rw [q.tail_eq hpos, Nat.mod_add_mod, Nat.add_assoc]
      filled := by
        intro i hi
        rw [q.tail_eq hpos, Array.getElem?_setIfInBounds]
        by_cases hlast : (q.head + q.length) % q.capacity = (q.head + i) % q.capacity
        · exact ⟨v, by simp [hlast, q.size_items, Nat.mod_lt _ hpos]⟩
        · have hne : i ≠ q.length := fun heq => hlast (by rw [heq])
          obtain ⟨w, hw⟩ := q.filled i (by omega)
          exact ⟨w, by simp [hlast, hw]⟩ }

theorem push_eq_some {q q' : RingBuffer α} {v : α} (h : q.push v = some q') :
    q.length < q.capacity ∧ q'.capacity = q.capacity ∧ q'.toList = q.toList ++ [v] := by
  unfold push at h
  split at h
  · cases h
  rename_i hne
  have hlt : q.length < q.capacity := Nat.lt_of_le_of_ne q.length_le hne
  have hpos : 0 < q.capacity := Nat.zero_lt_of_lt hlt
  have hq' := Option.some.inj h
  have hcell : ∀ i, q'.cell i = ((q.items.setIfInBounds q.tail (some v))[(q.head + i) % q.capacity]?).join := by
    intro i
    rw [← hq', cell]
  have hlength : q'.length = q.length + 1 := by rw [← hq']
  -- the new cell is the last one, and it is none of the others
  have hlast : q'.cell q.length = some v := by
    rw [hcell, q.tail_eq hpos, Array.getElem?_setIfInBounds_self]
    simp [q.size_items, Nat.mod_lt _ hpos]
  have hold : ∀ i ∈ List.range q.length, q'.cell i = q.cell i := by
    intro i hi
    have hi' : i < q.length := List.mem_range.mp hi
    rw [hcell, q.tail_eq hpos, Array.getElem?_setIfInBounds_ne, cell]
    intro heq
    have := offset_inj hlt (Nat.lt_trans hi' hlt) heq
    omega
  refine ⟨hlt, by rw [← hq'], ?_⟩
  rw [toList, hlength, List.range_succ, List.filterMap_append, List.filterMap_congr hold]
  simp [toList, hlast]

/-! ## shift -/

/-- Takes out the first value. -/
def shift (q : RingBuffer α) : Option (α × RingBuffer α) :=
  if h : q.length = 0 then none
  else
    have hpos : 0 < q.capacity := Nat.lt_of_lt_of_le (Nat.pos_of_ne_zero h) q.length_le
    (q.cell 0).map fun v => (v, {
      capacity := q.capacity
      items := q.items.setIfInBounds q.head none
      head := (q.head + 1) % q.capacity
      tail := q.tail
      length := q.length - 1
      size_items := by rw [Array.size_setIfInBounds, q.size_items]
      length_le := Nat.le_trans (Nat.sub_le _ _) q.length_le
      head_lt := fun _ => Nat.mod_lt _ hpos
      tail_eq := fun _ => by
        rw [q.tail_eq hpos, offset_succ]
        congr 1
        omega
      filled := by
        intro i hi
        have hlt : i + 1 < q.length := by omega
        obtain ⟨w, hw⟩ := q.filled (i + 1) hlt
        refine ⟨w, ?_⟩
        rw [offset_succ, Array.getElem?_setIfInBounds_ne, hw]
        intro heq
        have hlt' := Nat.lt_of_lt_of_le hlt q.length_le
        have hhead : (q.head + 0) % q.capacity = (q.head + (i + 1)) % q.capacity := by
          rw [Nat.add_zero, Nat.mod_eq_of_lt (q.head_lt hpos), ← heq]
        have := offset_inj hpos hlt' hhead
        omega })

theorem shift_eq_none {q : RingBuffer α} (h : q.shift = none) : q.length = 0 := by
  unfold shift at h
  split at h
  · assumption
  · rename_i hne
    obtain ⟨v, hv⟩ := q.cell_eq_some (Nat.pos_of_ne_zero hne)
    simp [hv] at h

theorem shift_eq_some {q q' : RingBuffer α} {v : α} (h : q.shift = some (v, q')) :
    q'.capacity = q.capacity ∧ q.toList = v :: q'.toList := by
  unfold shift at h
  split at h
  · cases h
  rename_i hne
  have hpos : 0 < q.capacity := Nat.lt_of_lt_of_le (Nat.pos_of_ne_zero hne) q.length_le
  obtain ⟨w, hw, hpair⟩ := Option.map_eq_some_iff.mp h
  obtain ⟨rfl, hq'⟩ := Prod.mk.inj hpair
  have hlength : q.length = q'.length + 1 := by
    rw [← hq']
    dsimp only
    omega
  have hrest : ∀ i ∈ List.range q'.length, q.cell (i + 1) = q'.cell i := by
    intro i hi
    have hi' : i < q'.length := List.mem_range.mp hi
    have hlt : i + 1 < q.capacity := Nat.lt_of_lt_of_le (by omega) q.length_le
    rw [← hq', cell, cell]
    dsimp only
    rw [offset_succ, Array.getElem?_setIfInBounds_ne]
    intro heq
    have hhead : (q.head + 0) % q.capacity = (q.head + (i + 1)) % q.capacity := by
      rw [Nat.add_zero, Nat.mod_eq_of_lt (q.head_lt hpos), ← heq]
    have := offset_inj hpos hlt hhead
    omega
  refine ⟨by rw [← hq'], ?_⟩
  rw [toList, toList, hlength, List.range_succ_eq_map, List.filterMap_cons, hw]
  simp only [List.filterMap_map, Function.comp_def]
  rw [List.filterMap_congr hrest]

end RingBuffer

import Mathlib.Data.List.Basic

/-!
# A row and the transactions that lock it

One row of a table, at the isolation level `READ COMMITTED`. A transaction that locks or writes the
row works on a version of its own from the newest committed one; until it ends, everybody else who
wants to lock or write the row waits. A statement outside of a transaction is one that commits at
once.

`Apart T s s'` is what a step can change for the owner of the transactions `T` if it is not a
statement of one of them: while such a transaction is active, its version stays as it is, and so
does the committed row, if the transaction has locked it.
-/

/-- The version of the row that a transaction works on. -/
structure LockedRow.Held (ρ : Type) where
  id : Nat
  row : ρ

/-- The committed row, the transaction that has locked it, the transactions that have begun and not
ended, and the number of the next one. -/
structure LockedRow (ρ : Type) where
  row : ρ
  holder : Option (LockedRow.Held ρ)
  active : List Nat
  begun : Nat

namespace LockedRow

variable {ρ : Type}

/-- No transaction has begun. -/
def initial (row : ρ) : LockedRow ρ := ⟨row, none, [], 0⟩

/-- The version that a transaction gets with the lock; `none` while it waits. -/
def acquire (s : LockedRow ρ) (t : Nat) : Option ρ :=
  match s.holder with
  | none => some s.row
  | some h => if h.id = t then some h.row else none

/-- What a transaction reads without the lock. -/
def view (s : LockedRow ρ) (t : Nat) : ρ :=
  match s.holder with
  | none => s.row
  | some h => if h.id = t then h.row else s.row

/-- The transaction has locked the row, and its version is `row`. -/
def hold (s : LockedRow ρ) (t : Nat) (row : ρ) : LockedRow ρ := { s with holder := some ⟨t, row⟩ }

/-- `BEGIN`. -/
def start (s : LockedRow ρ) : LockedRow ρ :=
  { s with active := s.begun :: s.active, begun := s.begun + 1 }

/-- `ROLLBACK`, and the end of a connection. -/
def close (s : LockedRow ρ) (t : Nat) : LockedRow ρ :=
  { s with active := s.active.filter (· ≠ t), holder := s.holder.filter (·.id ≠ t) }

/-- `COMMIT`. -/
def commit (s : LockedRow ρ) (t : Nat) : LockedRow ρ := { s.close t with row := s.view t }

/-- A statement that commits at once. -/
def write (s : LockedRow ρ) (row : ρ) : LockedRow ρ := { s with row := row }

variable {s s' s'' : LockedRow ρ} {t : Nat} {row : ρ} {T : Nat → Prop}

theorem acquire_eq_some {r : ρ} : s.acquire t = some r ↔
    (s.holder = none ∧ s.row = r) ∨ s.holder = some ⟨t, r⟩ := by
  unfold acquire
  cases hholder : s.holder with
  | none => simp
  | some h =>
    obtain ⟨id, own⟩ := h
    by_cases hid : id = t
    · simp [hid]
    · simp [hid]

theorem view_of_holder (h : s.holder = some ⟨t, row⟩) : s.view t = row := by
  rw [view, h]
  simp

theorem view_of_not_holder (h : ∀ r, s.holder ≠ some ⟨t, r⟩) : s.view t = s.row := by
  unfold view
  cases hholder : s.holder with
  | none => rfl
  | some own =>
    have hid : own.id ≠ t := by
      rintro rfl
      exact h own.row hholder
    simp [hid]

/-- The transaction with the lock has begun and not ended, and so have all that are active. -/
structure Wf (s : LockedRow ρ) : Prop where
  holder : ∀ h, s.holder = some h → h.id ∈ s.active
  active : ∀ t ∈ s.active, t < s.begun

theorem wf_initial (row : ρ) : (initial row).Wf := by
  constructor
  · intro h hh
    cases hh
  · intro t ht
    cases ht

theorem Wf.hold (h : s.Wf) (ht : t ∈ s.active) (row : ρ) : (s.hold t row).Wf := by
  refine ⟨?_, h.active⟩
  intro own hown
  cases hown
  exact ht

theorem Wf.start (h : s.Wf) : s.start.Wf := by
  constructor
  · intro own hown
    exact List.mem_cons_of_mem _ (h.holder own hown)
  · intro t ht
    change t < s.begun + 1
    rcases List.mem_cons.mp ht with rfl | ht
    · exact Nat.lt_succ_self _
    · exact Nat.lt_succ_of_lt (h.active t ht)

theorem Wf.close (h : s.Wf) (t : Nat) : (s.close t).Wf := by
  constructor
  · intro own hown
    obtain ⟨hown, hid⟩ := Option.filter_eq_some_iff.mp hown
    exact List.mem_filter.mpr ⟨h.holder own hown, hid⟩
  · intro t' ht'
    exact h.active t' (List.mem_of_mem_filter ht')

theorem Wf.commit (h : s.Wf) (t : Nat) : (s.commit t).Wf := ⟨(h.close t).holder, (h.close t).active⟩

theorem Wf.write (h : s.Wf) (row : ρ) : (s.write row).Wf := ⟨h.holder, h.active⟩

/-- What the owner of the transactions `T` can rely on when somebody else takes a step. -/
structure Apart (T : Nat → Prop) (s s' : LockedRow ρ) : Prop where
  begun : s.begun ≤ s'.begun
  active : ∀ t, T t → t ∈ s'.active → t ∈ s.active
  holder : ∀ h, T h.id → h.id ∈ s'.active → (s'.holder = some h ↔ s.holder = some h)
  row : ∀ h, T h.id → h.id ∈ s'.active → s.holder = some h → s'.row = s.row

theorem Apart.refl (T : Nat → Prop) (s : LockedRow ρ) : Apart T s s :=
  ⟨Nat.le_refl _, fun _ _ ht => ht, fun _ _ _ => Iff.rfl, fun _ _ _ _ => rfl⟩

/-- Another transaction gets the lock, or writes the row. -/
theorem apart_hold {r : ρ} (ht : ¬ T t) (hacquire : s.acquire t = some r) (row : ρ) :
    Apart T s (s.hold t row) := by
  refine ⟨Nat.le_refl _, fun _ _ h => h, ?_, fun _ _ _ _ => rfl⟩
  intro h hT _
  have hid : h.id ≠ t := by
    intro hid
    exact ht (hid ▸ hT)
  constructor
  · intro hheld
    cases hheld
    exact absurd rfl hid
  · intro hheld
    rcases acquire_eq_some.mp hacquire with ⟨hnone, -⟩ | hsome
    · rw [hheld] at hnone
      cases hnone
    · rw [hheld] at hsome
      cases hsome
      exact absurd rfl hid

theorem apart_start (hT : ∀ t, T t → t < s.begun) : Apart T s s.start := by
  refine ⟨Nat.le_succ _, ?_, fun _ _ _ => Iff.rfl, fun _ _ _ _ => rfl⟩
  intro t ht hmem
  rcases List.mem_cons.mp hmem with rfl | hmem
  · exact absurd (hT _ ht) (Nat.lt_irrefl _)
  · exact hmem

theorem apart_close (T : Nat → Prop) (s : LockedRow ρ) (t : Nat) : Apart T s (s.close t) := by
  refine ⟨Nat.le_refl _, fun _ _ h => List.mem_of_mem_filter h, ?_, fun _ _ _ _ => rfl⟩
  intro h _ hactive
  have hid := (List.mem_filter.mp hactive).2
  constructor
  · intro hheld
    exact (Option.filter_eq_some_iff.mp hheld).1
  · intro hheld
    exact Option.filter_eq_some_iff.mpr ⟨hheld, hid⟩

theorem apart_commit (T : Nat → Prop) (s : LockedRow ρ) (t : Nat) : Apart T s (s.commit t) := by
  have hclose := apart_close T s t
  refine ⟨hclose.begun, hclose.active, hclose.holder, ?_⟩
  intro h _ hactive hheld
  refine view_of_not_holder fun r hother => ?_
  have hid := (List.mem_filter.mp hactive).2
  rw [hheld] at hother
  cases hother
  simp at hid

theorem apart_write (hnone : s.holder = none) (T : Nat → Prop) (row : ρ) :
    Apart T s (s.write row) := by
  refine ⟨Nat.le_refl _, fun _ _ h => h, fun _ _ _ => Iff.rfl, ?_⟩
  intro h _ _ hheld
  rw [hnone] at hheld
  cases hheld

end LockedRow

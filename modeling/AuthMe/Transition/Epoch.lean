import Mathlib.Order.Basic

/-!
# Cells with an epoch

A `Cell` is the place of a value with a version: it is `unused` until the value is
created, `live` while it exists and `retired` once it is deleted, for identifiers that
are never used twice. Over time a cell only moves forwards (`Cell.Le`): its version does
not go down and a deleted value does not come back.

* `Cell.Seen c n`: version `n` has been current, or still is.
* `Cell.Past c n`: version `n` is over for good.

Both are kept by every move forwards (`Seen.mono`, `Past.mono`). Where all the copies of
a version that were taken up to some moment are `Seen`, a later move past that version
leaves none of them current (`Past.not_current`).
-/

namespace Epoch

/-- The place of a value with a version. -/
inductive Cell (α : Type*)
  | unused
  | live (value : α)
  | retired
  deriving DecidableEq

namespace Cell

variable {α : Type*}

def value? : Cell α → Option α
  | unused => none
  | live a => some a
  | retired => none

theorem value?_eq_some {c : Cell α} {a : α} : c.value? = some a ↔ c = live a := by
  cases c <;> simp [value?]

variable (version : α → Nat)

/-- The order of time. -/
def Le : Cell α → Cell α → Prop
  | unused, _ => True
  | live a, live b => version a ≤ version b
  | live _, retired => True
  | retired, retired => True
  | _, _ => False

/-- Version `n` has been current, or still is. -/
def Seen : Cell α → Nat → Prop
  | unused, _ => False
  | live a, n => n ≤ version a
  | retired, _ => True

/-- Version `n` is over for good. -/
def Past : Cell α → Nat → Prop
  | unused, _ => False
  | live a, n => n < version a
  | retired, _ => True

variable {version}

@[refl] theorem Le.refl (c : Cell α) : Le version c c := by
  cases c <;> simp [Le]

theorem Le.trans {a b c : Cell α} (h : Le version a b) (h' : Le version b c) :
    Le version a c := by
  cases a <;> cases b <;> cases c <;> simp_all [Le]
  exact Nat.le_trans h h'

theorem Seen.mono {c c' : Cell α} {n : Nat} (h : Seen version c n) (hle : Le version c c') :
    Seen version c' n := by
  cases c <;> cases c' <;> simp_all [Seen, Le]
  exact Nat.le_trans h hle

theorem Past.mono {c c' : Cell α} {n : Nat} (h : Past version c n) (hle : Le version c c') :
    Past version c' n := by
  cases c <;> cases c' <;> simp_all [Past, Le]
  exact Nat.lt_of_lt_of_le h hle

theorem seen_of_value? {c : Cell α} {a : α} (h : c.value? = some a) :
    Seen version c (version a) := by
  rw [value?_eq_some.mp h]
  exact Nat.le_refl _

theorem Past.not_current {c : Cell α} {a : α} {n m : Nat} (h : Past version c n)
    (hm : m ≤ n) (ha : c.value? = some a) : version a ≠ m := by
  rw [value?_eq_some.mp ha] at h
  have hlt : n < version a := h
  omega

end Cell

end Epoch

import Mathlib.Data.List.Basic
import Mathlib.Order.Basic

/-!
# Clock readings and account identifiers

* `Instant` is what `Date.now()` and PostgreSQL's `CURRENT_TIMESTAMP` return, in
  milliseconds since 1970. No machine runs in the first second of 1970, and the type
  says so: `Math.floor(now / 1000)`, the mark that consuming an artifact leaves, is
  therefore never `0` (`Instant.seconds_pos`), the one epoch that JavaScript reads as
  `false`.
* `Uuid` is PostgreSQL's `uuid` type: a value is its canonical lower-case text.
  `Uuid.parse` is the cast `text::uuid` on the texts that the adapters' own pattern
  admits, in any letter case.
-/

namespace AuthMe

/-- A sequence of two computations returns a value if both do. -/
theorem bind_eq_ok {ε α β : Type} {x : Except ε α} {f : α → Except ε β} {b : β} :
    (x >>= f) = .ok b ↔ ∃ a, x = .ok a ∧ f a = .ok b := by
  cases x with
  | error e => simp [bind, Except.bind]
  | ok a => simp [bind, Except.bind]

/-- `Number.isSafeInteger`. -/
def isSafeInteger (n : Int) : Bool := -9007199254740991 ≤ n && n ≤ 9007199254740991

/-- A reading of the clock, in milliseconds since 1970. -/
structure Instant where
  ms : Int
  afterEpoch : 1000 ≤ ms
  deriving DecidableEq

namespace Instant

/-- `Math.floor(now / 1000)`. -/
def seconds (t : Instant) : Int := t.ms / 1000

theorem seconds_pos (t : Instant) : 0 < t.seconds := by
  have := t.afterEpoch
  unfold seconds
  omega

end Instant

/-! ## UUIDs -/

/-- ASCII lower case, the letter case that `uuid` values are printed in. -/
def asciiLower (c : Char) : Char :=
  if 'A' ≤ c ∧ c ≤ 'Z' then Char.ofNat (c.toNat + 32) else c

def isHex (c : Char) : Bool := ('0' ≤ c && c ≤ '9') || ('a' ≤ c && c ≤ 'f')

/-- `/^[0-9a-f]{8}-[0-9a-f]{4}-[1-8][0-9a-f]{3}-[89ab][0-9a-f]{3}-[0-9a-f]{12}$/` on
lower-case text, as one test for each character. -/
def uuidShape : List (Char → Bool) :=
  List.replicate 8 isHex ++ [(· == '-')] ++ List.replicate 4 isHex ++ [(· == '-')] ++
    [fun c => '1' ≤ c && c ≤ '8'] ++ List.replicate 3 isHex ++ [(· == '-')] ++
    [fun c => c == '8' || c == '9' || c == 'a' || c == 'b'] ++ List.replicate 3 isHex ++
    [(· == '-')] ++ List.replicate 12 isHex

def matchesShape : List (Char → Bool) → List Char → Bool
  | [], [] => true
  | p :: ps, c :: cs => p c && matchesShape ps cs
  | _, _ => false

/-- A `uuid` value: the canonical text. -/
structure Uuid where
  text : String
  canonical : matchesShape uuidShape text.toList = true
  deriving DecidableEq

namespace Uuid

/-- `/…/i.test(text)` and the cast `text::uuid`. -/
def parse (text : String) : Option Uuid :=
  let lower := String.ofList (text.toList.map asciiLower)
  if h : matchesShape uuidShape lower.toList = true then some ⟨lower, h⟩ else none

/-- The `uuid` whose text form is exactly `text`: the comparison `text = id::text`. -/
def ofText? (text : String) : Option Uuid :=
  if h : matchesShape uuidShape text.toList = true then some ⟨text, h⟩ else none

theorem asciiLower_of_lt {c : Char} (h : c.toNat < 65 ∨ 90 < c.toNat) : asciiLower c = c := by
  unfold asciiLower
  refine if_neg fun hupper => ?_
  have h1 : 65 ≤ c.toNat := hupper.1
  have h2 : c.toNat ≤ 90 := hupper.2
  omega

theorem asciiLower_of_isHex {c : Char} (h : isHex c = true) : asciiLower c = c := by
  simp only [isHex, Bool.or_eq_true, Bool.and_eq_true, decide_eq_true_eq] at h
  rcases h with ⟨-, h⟩ | ⟨h, -⟩
  · have h1 : c.toNat ≤ 57 := h
    exact asciiLower_of_lt (by omega)
  · have h1 : 97 ≤ c.toNat := h
    exact asciiLower_of_lt (by omega)

/-- The pattern admits hexadecimal digits and dashes only. -/
theorem isHex_or_dash {p : Char → Bool} (hp : p ∈ uuidShape) {c : Char} (h : p c = true) :
    isHex c = true ∨ c = '-' := by
  have hdigit (h1 : '1' ≤ c) (h8 : c ≤ '8') : isHex c = true := by
    have h1 : 49 ≤ c.toNat := h1
    have h8 : c.toNat ≤ 56 := h8
    have hlow : '0' ≤ c := Char.le_def.mpr (UInt32.le_iff_toNat_le.mpr (by change 48 ≤ c.toNat; omega))
    have hhigh : c ≤ '9' := Char.le_def.mpr (UInt32.le_iff_toNat_le.mpr (by change c.toNat ≤ 57; omega))
    simp [isHex, hlow, hhigh]
  simp only [uuidShape, List.mem_append, List.mem_replicate, List.mem_singleton] at hp
  rcases hp with (((((((((⟨-, rfl⟩ | rfl) | ⟨-, rfl⟩) | rfl) | rfl) | ⟨-, rfl⟩) | rfl) | rfl) |
    ⟨-, rfl⟩) | rfl) | ⟨-, rfl⟩
  · exact .inl h
  · exact .inr (beq_iff_eq.mp h)
  · exact .inl h
  · exact .inr (beq_iff_eq.mp h)
  · simp only [Bool.and_eq_true, decide_eq_true_eq] at h
    exact .inl (hdigit h.1 h.2)
  · exact .inl h
  · exact .inr (beq_iff_eq.mp h)
  · simp only [Bool.or_eq_true, beq_iff_eq] at h
    rcases h with ((rfl | rfl) | rfl) | rfl <;> exact .inl (by decide)
  · exact .inl h
  · exact .inr (beq_iff_eq.mp h)
  · exact .inl h

/-- What holds of every character that a pattern admits holds of the characters of a match. -/
theorem forall_of_matchesShape {Q : Char → Prop} {ps : List (Char → Bool)} {cs : List Char}
    (hps : ∀ p ∈ ps, ∀ c, p c = true → Q c) (h : matchesShape ps cs = true) : ∀ c ∈ cs, Q c := by
  induction ps generalizing cs with
  | nil =>
    cases cs with
    | nil => simp
    | cons c cs => cases h
  | cons p ps ih =>
    cases cs with
    | nil => simp
    | cons c cs =>
      simp only [matchesShape, Bool.and_eq_true] at h
      rw [List.forall_mem_cons]
      exact ⟨hps p List.mem_cons_self c h.1, ih (fun q hq => hps q (List.mem_cons_of_mem _ hq)) h.2⟩

/-- The text of a `uuid` consists of hexadecimal digits and dashes. -/
theorem isHex_or_dash_text (u : Uuid) : ∀ c ∈ u.text.toList, isHex c = true ∨ c = '-' :=
  forall_of_matchesShape (fun _ hp _ h => isHex_or_dash hp h) u.canonical

/-- The cast reads the text of a `uuid` back. -/
@[simp] theorem parse_text (u : Uuid) : parse u.text = some u := by
  have hlower : u.text.toList.map asciiLower = u.text.toList := by
    nth_rewrite 2 [← List.map_id u.text.toList]
    apply List.map_congr_left
    intro c hc
    rcases isHex_or_dash_text u c hc with h | rfl
    · exact asciiLower_of_isHex h
    · decide
  unfold parse
  simp only [hlower, String.ofList_toList]
  rw [dif_pos u.canonical]

theorem ofText?_eq_some {text : String} {u : Uuid} : ofText? text = some u ↔ text = u.text := by
  unfold ofText?
  constructor
  · intro h
    split at h
    · cases h; rfl
    · cases h
  · rintro rfl
    rw [dif_pos u.canonical]

end Uuid

end AuthMe

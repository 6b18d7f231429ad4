import Mathlib.Data.List.Sort
import Mathlib.Data.List.Lex
import Mathlib.Data.List.TakeWhile
import AuthMe.Text
import AuthMe.Collections.OrderedMap

/-!
# The migration manifest

`src/src/migrations.js`: the files of a release in the order of their names, and the two tests
that compare them with the rows of `schema_migrations`. The names are sorted as texts, by their
UTF-16 code units. Among names whose numbers have the same count of digits this is the order of
the numbers (`number_le_of_units_le`).
-/

namespace AuthMe.Migrations

structure Entry where
  name : String
  checksum : String
  sql : String
  deriving DecidableEq

/-- `Database schema verification failed: ...`. -/
def schemaMismatch (message : String) : String :=
  "Database schema verification failed: " ++ message

/-! ## File names -/

/-- The digits that a name starts with. -/
def digits (name : String) : List Char := name.toList.takeWhile Char.isDigit

/-- The number that a name starts with. -/
def number (name : String) : Nat :=
  (digits name).foldl (fun n c => 10 * n + (c.toNat - 48)) 0

/-- `/^\d+_.+\.sql$/`. -/
def migrationName (name : String) : Bool :=
  let rest := name.toList.drop (digits name).length
  let suffix := ".sql".toList
  let middle := (rest.drop 1).take ((rest.drop 1).length - suffix.length)
  !(digits name).isEmpty && rest.head? == some '_' && suffix.isSuffixOf (rest.drop 1) &&
    !middle.isEmpty && middle.all fun c => !Text.isLineTerminator c

/-- The order of `sort()`, which compares UTF-16 code units. -/
def Precedes (a b : String) : Prop := Text.units a ≤ Text.units b

instance (a b : String) : Decidable (Precedes a b) :=
  inferInstanceAs (Decidable (Text.units a ≤ Text.units b))

instance : Std.Total Precedes := ⟨fun a b => le_total (Text.units a) (Text.units b)⟩

instance : IsTrans String Precedes := ⟨fun _ _ _ => le_trans⟩

/-- The manifest of a directory, given as its file names with what the files contain. -/
def loadMigrationManifest (sha256 : String → String) (directory : OrderedMap String String) :
    Except String (List Entry) :=
  let names := ((directory.entries.map Prod.fst).filter migrationName).insertionSort Precedes
  if names = [] then .error (schemaMismatch "the release contains no migrations")
  else .ok (names.map fun name =>
    let sql := (directory.get? name).getD ""
    ⟨name, sha256 sql, sql⟩)

theorem isDigit_bounds {c : Char} (h : c.isDigit = true) : 48 ≤ c.toNat ∧ c.toNat ≤ 57 := by
  simp only [Char.isDigit, Bool.and_eq_true, decide_eq_true_eq] at h
  exact ⟨h.1, h.2⟩

/-- A smaller number stays smaller when as many digits are written behind both. -/
theorem foldl_digits_lt {xs ys : List Char} (hx : ∀ c ∈ xs, c.isDigit = true)
    (hlen : xs.length = ys.length) {m n : Nat} (h : m < n) :
    xs.foldl (fun n c => 10 * n + (c.toNat - 48)) m <
      ys.foldl (fun n c => 10 * n + (c.toNat - 48)) n := by
  induction xs generalizing ys m n with
  | nil =>
    cases ys with
    | nil => exact h
    | cons y ys => simp at hlen
  | cons x xs ih =>
    cases ys with
    | nil => simp at hlen
    | cons y ys =>
      have hd := isDigit_bounds (hx x List.mem_cons_self)
      have hlt : 10 * m + (x.toNat - 48) < 10 * n + (y.toNat - 48) := by omega
      exact ih (fun c hc => hx c (List.mem_cons_of_mem _ hc)) (Nat.succ.inj hlen) hlt

/-- Digits of one count are in the order of their numbers, whatever follows them. -/
theorem foldl_digits_le {xs ys : List Char} (hx : ∀ c ∈ xs, c.isDigit = true)
    (hy : ∀ c ∈ ys, c.isDigit = true) (hlen : xs.length = ys.length) {r t : List Nat} (m : Nat)
    (h : xs.map Char.toNat ++ r ≤ ys.map Char.toNat ++ t) :
    xs.foldl (fun n c => 10 * n + (c.toNat - 48)) m ≤
      ys.foldl (fun n c => 10 * n + (c.toNat - 48)) m := by
  induction xs generalizing ys m with
  | nil =>
    cases ys with
    | nil => exact le_refl m
    | cons y ys => simp at hlen
  | cons x xs ih =>
    cases ys with
    | nil => simp at hlen
    | cons y ys =>
      have hlen' : xs.length = ys.length := by simpa using hlen
      have hx' : ∀ c ∈ xs, c.isDigit = true := fun c hc => hx c (List.mem_cons_of_mem _ hc)
      have hdx := isDigit_bounds (hx x List.mem_cons_self)
      have hdy := isDigit_bounds (hy y List.mem_cons_self)
      rcases lt_trichotomy x.toNat y.toNat with hlt | heq | hgt
      · have hnext : 10 * m + (x.toNat - 48) < 10 * m + (y.toNat - 48) := by omega
        exact (foldl_digits_lt hx' hlen' hnext).le
      · simp only [List.map_cons, List.cons_append, heq] at h
        have hrest : xs.map Char.toNat ++ r ≤ ys.map Char.toNat ++ t :=
          not_lt.mp fun hlt => not_lt.mpr h (List.Lex.cons hlt)
        simp only [List.foldl_cons, heq]
        exact ih hx' (fun c hc => hy c (List.mem_cons_of_mem _ hc)) hlen' _ hrest
      · exact absurd (List.Lex.rel hgt) (not_lt.mpr h)

theorem digits_isDigit (name : String) : ∀ c ∈ digits name, c.isDigit = true := by
  intro c hc
  exact List.mem_takeWhile_imp hc

/-- The code units of a name start with its digits. -/
theorem units_eq (name : String) :
    ∃ r, Text.units name = (digits name).map Char.toNat ++ r := by
  have hsplit : name.toList = digits name ++ name.toList.dropWhile Char.isDigit :=
    List.takeWhile_append_dropWhile.symm
  rw [Text.units, hsplit, List.flatMap_append]
  refine ⟨_, congrArg (· ++ _) ?_⟩
  have hd := digits_isDigit name
  generalize digits name = ds at hd
  induction ds with
  | nil => rfl
  | cons d ds ih =>
    have hb := isDigit_bounds (hd d List.mem_cons_self)
    rw [List.flatMap_cons, Text.charUnits, if_pos (by omega), ih fun c hc => hd c (List.mem_cons_of_mem _ hc)]
    rfl

/-- Sorted names whose numbers have as many digits are in the order of the numbers. -/
theorem number_le_of_units_le {a b : String} (hlen : (digits a).length = (digits b).length)
    (h : Precedes a b) : number a ≤ number b := by
  obtain ⟨r, hr⟩ := units_eq a
  obtain ⟨t, ht⟩ := units_eq b
  rw [Precedes, hr, ht] at h
  exact foldl_digits_le (digits_isDigit a) (digits_isDigit b) hlen 0 h

/-- A manifest is sorted, names each of its files once, and binds each to its text. -/
theorem loadMigrationManifest_ok {sha256 : String → String} {directory : OrderedMap String String}
    {manifest : List Entry} (h : loadMigrationManifest sha256 directory = .ok manifest) :
    (manifest.map Entry.name).Pairwise Precedes ∧ (manifest.map Entry.name).Nodup ∧
      (∀ name, name ∈ manifest.map Entry.name ↔
        migrationName name = true ∧ (directory.get? name).isSome) ∧
      ∀ e ∈ manifest, directory.get? e.name = some e.sql ∧ e.checksum = sha256 e.sql := by
  simp only [loadMigrationManifest] at h
  split at h
  · cases h
  · cases h
    have hperm := List.perm_insertionSort Precedes
      ((directory.entries.map Prod.fst).filter migrationName)
    have hmem : ∀ name, name ∈ ((directory.entries.map Prod.fst).filter
        migrationName).insertionSort Precedes ↔
          migrationName name = true ∧ (directory.get? name).isSome := by
      intro name
      rw [hperm.mem_iff, List.mem_filter, and_comm, List.mem_map, Option.isSome_iff_exists]
      apply and_congr_right
      intro _
      constructor
      · rintro ⟨x, hx, rfl⟩
        exact ⟨x.2, OrderedMap.mem_entries_iff.mp hx⟩
      · rintro ⟨sql, hsql⟩
        exact ⟨(name, sql), OrderedMap.mem_entries_iff.mpr hsql, rfl⟩
    simp only [List.map_map, Function.comp_def, List.map_id']
    refine ⟨List.pairwise_insertionSort _ _,
      hperm.nodup_iff.mpr (directory.nodup.sublist List.filter_sublist), hmem, ?_⟩
    intro e he
    obtain ⟨name, hname, rfl⟩ := List.mem_map.mp he
    obtain ⟨sql, hsql⟩ := Option.isSome_iff_exists.mp ((hmem name).mp hname).2
    simp [hsql]

/-! ## The tests -/

/-- An error of a query. -/
structure QueryError where
  code : String
  message : String
  deriving DecidableEq

/-- Names with their checksums: the rows of `schema_migrations`, or a manifest as a `Map`. -/
abbrev Checksums := List (String × String)

def checksums (manifest : List Entry) : Checksums := manifest.map fun e => (e.name, e.checksum)

/-- The names that the other list does not have. -/
def missing (xs ys : Checksums) : List String :=
  (xs.filter fun x => (OrderedMap.lookup x.1 ys).isNone).map Prod.fst

/-- The names that the other list has with another checksum. -/
def differing (xs ys : Checksums) : List String :=
  (xs.filter fun x => (OrderedMap.lookup x.1 ys).any fun c => c != x.2).map Prod.fst

/-- One of the problems of a message. -/
def problem (label : String) (names : List String) : List String :=
  if names = [] then [] else [label ++ String.intercalate ", " names]

def verifyMigrationState (manifest : List Entry) :
    Except QueryError Checksums → Except String Unit
  | .error e =>
    if e.code = "42P01" then
      .error (schemaMismatch
        "schema_migrations is missing; run `npm run db:migrate` before starting AuthMe")
    else .error (schemaMismatch "the schema_migrations table could not be read")
  | .ok rows =>
    let problems := problem "pending migrations: " (missing (checksums manifest) rows) ++
      problem "checksum mismatches: " (differing (checksums manifest) rows) ++
      problem "unknown migrations: " (missing rows (checksums manifest))
    if problems = [] then .ok ()
    else .error (schemaMismatch (String.intercalate "; " problems ++
      "; deploy the matching application and migration set"))

def verifyMigrationHistory (manifest : List Entry) :
    Except QueryError Checksums → Except String Unit
  | .error _ => .error (schemaMismatch "the schema_migrations table could not be read")
  | .ok rows =>
    let problems := problem "checksum mismatches: " (differing rows (checksums manifest)) ++
      problem "unknown migrations: " (missing rows (checksums manifest))
    if problems = [] then .ok ()
    else .error (schemaMismatch (String.intercalate "; " problems ++
      "; refusing to apply pending migrations to an incompatible history"))

end AuthMe.Migrations

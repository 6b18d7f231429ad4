import AuthMe.Federation.ReplayCache

/-!
# When the replay caches agree

A `Ledger` has the first record of each key, and whether it has been consumed. As long as no key is
used again after its record was consumed or has expired, and PostgreSQL takes the texts, each of the
three caches answers as the ledger does. At the first call where either fails, the cache in memory
and the one in PostgreSQL part.
-/

namespace AuthMe.Federation.ReplayCache

open Adapters

/-! ## The ledger -/

structure Row where
  value : String
  expiresAt : Int
  consumed : Bool
  deriving DecidableEq

/-- The first record of each key. -/
abbrev Ledger := OrderedMap String Row

/-- The record can still be consumed. -/
def Row.open (r : Row) (now : Instant) : Bool := now.ms < r.expiresAt && !r.consumed

namespace Ledger

variable (l : Ledger) (now : Instant)

/-- The records after a call. -/
def after : Op → Ledger
  | .put key value ttlMs =>
    match l.get? key with
    | none => l.set key ⟨value, now.ms + ttlMs, false⟩
    | some _ => l
  | .get _ => l
  | .consume key =>
    match l.get? key with
    | none => l
    | some r => if r.open now then l.set key { r with consumed := true } else l

/-- The value of a record that is open. -/
def value? (key : String) : Option String := ((l.get? key).filter (·.open now)).map (·.value)

def answer : Op → Result
  | .put key _ _ => .stored (l.get? key).isNone
  | .get key | .consume key => .value (value? l now key)

/-- The record of the key was consumed or has expired, and another one is to be stored. -/
def reuses : Op → Bool
  | .put key _ _ =>
    match l.get? key with
    | none => false
    | some r => !r.open now
  | _ => false

end Ledger

/-- PostgreSQL takes the texts of the call. -/
def Op.plain (fits : String → String → Bool) : Op → Bool
  | .put key value _ =>
    Postgres.asText key = .ok () && Postgres.asJsonb value = .ok () && fits key value
  | .get key | .consume key => Postgres.asText key = .ok ()

/-- Each call has plain texts, and none stores a key again whose first record was consumed or has
expired. -/
def usesOnce (fits : String → String → Bool) (l : Ledger) : List (Instant × Call) → Bool
  | [] => true
  | (now, c) :: rest =>
    match c.check with
    | .error _ => usesOnce fits l rest
    | .ok op => op.plain fits && !l.reuses now op && usesOnce fits (l.after now op) rest

/-! ## Caches that answer as the ledger does -/

variable {σ : Type} {fits : String → String → Bool} {l : Ledger} {now : Instant} {op : Op} {s : σ}

/-- The rules of an adapter whose records are those of the ledger. -/
structure Serves (fits : String → String → Bool) (records : Adapter σ) (rep : σ → Ledger → Prop) :
    Prop where
  put_new : ∀ {s l} now key value ttlMs, rep s l → (Op.put key value ttlMs).plain fits = true →
    key ≠ "" → 1 ≤ ttlMs → l.get? key = none →
    ∃ s', records.upsert s now key { rest := value } (some ttlMs) = (.ok (), s') ∧
      rep s' (l.set key ⟨value, now.ms + ttlMs, false⟩)
  put_open : ∀ {s l} now key value ttlMs r, rep s l → (Op.put key value ttlMs).plain fits = true →
    key ≠ "" → 1 ≤ ttlMs → l.get? key = some r → r.open now = true →
    ∃ e s', records.upsert s now key { rest := value } (some ttlMs) = (.error e, s') ∧
      oneUseConflict e = true ∧ rep s' l
  find : ∀ {s l} now key, rep s l → (Op.get key).plain fits = true → key ≠ "" →
    ∃ found s', records.find s now key = (.ok found, s') ∧ rep s' l ∧
      found.bind (fun p => if p.isConsumed then none else some p.rest) = l.value? now key
  consume : ∀ {s l} now key r, rep s l → (Op.get key).plain fits = true → key ≠ "" →
    l.get? key = some r → r.open now = true →
    ∃ s', records.consume s now key = (.ok (), s') ∧ rep s' (l.set key { r with consumed := true })

/-- What the checks of a call leave. -/
def Op.checked : Op → Prop
  | .put key _ ttlMs => key ≠ "" ∧ 1 ≤ ttlMs
  | .get key | .consume key => key ≠ ""

theorem validateKey_eq_ok {key : Option String} {text : String} (h : validateKey key = .ok text) :
    text ≠ "" := by
  unfold validateKey at h
  split at h
  · cases h
  · split at h
    · cases h
    · rename_i hkey
      cases h
      exact fun hempty => hkey (.inl hempty)

theorem validateTtl_eq_ok {ttlMs : Option Int} {t : Int} (h : validateTtl ttlMs = .ok t) :
    1 ≤ t := by
  unfold validateTtl at h
  split at h
  · cases h
  · split at h
    · cases h
    · rename_i ht
      cases h
      omega

theorem checked_of_check {c : Call} (h : c.check = .ok op) : op.checked := by
  cases c with
  | putIfAbsent key value ttlMs =>
    obtain ⟨text, hkey, h⟩ := bind_eq_ok.mp h
    obtain ⟨t, ht, h⟩ := bind_eq_ok.mp h
    cases h
    exact ⟨validateKey_eq_ok hkey, validateTtl_eq_ok ht⟩
  | get key =>
    obtain ⟨text, hkey, h⟩ := bind_eq_ok.mp h
    cases h
    exact validateKey_eq_ok hkey
  | consume key =>
    obtain ⟨text, hkey, h⟩ := bind_eq_ok.mp h
    cases h
    exact validateKey_eq_ok hkey

theorem Serves.step {records : Adapter σ} {rep : σ → Ledger → Prop} (h : Serves fits records rep)
    (hrep : rep s l) (hchecked : op.checked) (hplain : op.plain fits = true)
    (honce : l.reuses now op = false) :
    ∃ s', adapterCache records s now op = (l.answer now op, s') ∧ rep s' (l.after now op) := by
  cases op with
  | put key value ttlMs =>
    cases hget : l.get? key with
    | none =>
      obtain ⟨s', hput, hrep'⟩ := h.put_new now key value ttlMs hrep hplain hchecked.1 hchecked.2 hget
      exact ⟨s', by simp [adapterCache, hput, Ledger.answer, hget], by simpa [Ledger.after, hget]⟩
    | some r =>
      have hopen : r.open now = true := by simpa [Ledger.reuses, hget] using honce
      obtain ⟨e, s', hput, hused, hrep'⟩ :=
        h.put_open now key value ttlMs r hrep hplain hchecked.1 hchecked.2 hget hopen
      exact ⟨s', by simp [adapterCache, hput, hused, Ledger.answer, hget],
        by simpa [Ledger.after, hget]⟩
  | get key =>
    obtain ⟨found, s', hfind, hrep', hfound⟩ := h.find now key hrep hplain hchecked
    refine ⟨s', ?_, hrep'⟩
    simp only [adapterCache, hfind, Ledger.answer, ← hfound]
    cases found with
    | none => rfl
    | some p => rfl
  | consume key =>
    obtain ⟨found, s₁, hfind, hrep₁, hfound⟩ := h.find now key hrep hplain hchecked
    simp only [adapterCache, hfind, Ledger.answer]
    cases hvalue : l.value? now key with
    | none =>
      have hafter : l.after now (.consume key) = l := by
        simp only [Ledger.after]
        split
        · rfl
        · rename_i r hr
          rw [if_neg]
          simpa [Ledger.value?, hr, Option.filter] using hvalue
      rw [hafter]
      rw [hvalue] at hfound
      cases found with
      | none => exact ⟨s₁, rfl, hrep₁⟩
      | some p =>
        have hp : p.isConsumed = true := by simpa using hfound
        exact ⟨s₁, by simp [hp], hrep₁⟩
    | some value =>
      obtain ⟨r, hr, hvalue'⟩ := Option.map_eq_some_iff.mp hvalue
      obtain ⟨hget, hopen⟩ := Option.filter_eq_some_iff.mp hr
      obtain ⟨s₂, hconsume, hrep₂⟩ := h.consume now key r hrep₁ hplain hchecked hget hopen
      rw [hvalue] at hfound
      cases found with
      | none => cases hfound
      | some p =>
        have hp : p.isConsumed = false ∧ p.rest = value := by simpa using hfound
        refine ⟨s₂, ?_, ?_⟩
        · simp [hp, hconsume]
        · simpa [Ledger.after, hget, hopen] using hrep₂

/-! ## The cache in memory -/

/-- From now on the cache has the open records of the ledger, and perhaps some that have expired. -/
def Tracks (m : Records) (l : Ledger) (now : Instant) : Prop :=
  ∀ t : Instant, now.ms ≤ t.ms → ∀ key, (prune m t).get? key =
    ((l.get? key).filter (·.open t)).map fun r => ⟨r.value, r.expiresAt⟩

variable {m : Records} {t : Instant}

theorem get?_prune (key : String) :
    (prune m t).get? key = (m.get? key).filter fun r => !(r.expiresAt ≤ t.ms) :=
  OrderedMap.get?_filter ..

theorem prune_prune (h : now.ms ≤ t.ms) (key : String) :
    (prune (prune m now) t).get? key = (prune m t).get? key := by
  rw [get?_prune, get?_prune, get?_prune, Option.filter_filter]
  congr 1
  funext r
  by_cases hr : r.expiresAt ≤ now.ms
  · simp [hr, Int.le_trans hr h]
  · simp [hr]

theorem Tracks.prune (h : Tracks m l now) (hle : now.ms ≤ t.ms) :
    Tracks (ReplayCache.prune m t) l t := by
  intro t' ht' key
  rw [prune_prune ht']
  exact h t' (Int.le_trans hle ht') key

theorem Tracks.put (h : Tracks m l now) (key value : String) (ttlMs : Int) :
    Tracks (m.set key ⟨value, now.ms + ttlMs⟩) (l.set key ⟨value, now.ms + ttlMs, false⟩) now := by
  intro t ht key'
  have hkey := h t ht key'
  rw [get?_prune] at hkey ⊢
  rw [OrderedMap.get?_set, OrderedMap.get?_set]
  split
  · by_cases hexpired : now.ms + ttlMs ≤ t.ms
    · simp [Option.filter, Row.open, hexpired]
    · simp [Option.filter, Row.open, hexpired, Int.not_le.mp hexpired]
  · exact hkey

theorem Tracks.consume (h : Tracks m l now) (key : String) (r : Row) :
    Tracks (m.erase key) (l.set key { r with consumed := true }) now := by
  intro t ht key'
  have hkey := h t ht key'
  rw [get?_prune] at hkey ⊢
  rw [OrderedMap.get?_set, OrderedMap.get?_erase]
  split
  · simp [Option.filter, Row.open]
  · exact hkey

theorem memoryCache_step (h : Tracks m l now) (hle : now.ms ≤ t.ms) (honce : l.reuses t op = false) :
    ∃ m', memoryCache m t op = (l.answer t op, m') ∧ Tracks m' (l.after t op) t := by
  have hpruned := h.prune hle
  have hget : ∀ key, (prune m t).get? key =
      ((l.get? key).filter (·.open t)).map fun r => ⟨r.value, r.expiresAt⟩ := h t hle
  cases op with
  | put key value ttlMs =>
    have hkey := hget key
    cases hrow : l.get? key with
    | none =>
      rw [hrow] at hkey
      exact ⟨(prune m t).set key ⟨value, t.ms + ttlMs⟩, by simp [memoryCache, hkey, Ledger.answer, hrow],
        by simpa [Ledger.after, hrow] using hpruned.put key value ttlMs⟩
    | some r =>
      have hopen : r.open t = true := by simpa [Ledger.reuses, hrow] using honce
      simp only [hrow, Option.filter, hopen, if_true, Option.map_some] at hkey
      exact ⟨prune m t, by simp [memoryCache, hkey, Ledger.answer, hrow],
        by simpa [Ledger.after, hrow] using hpruned⟩
  | get key =>
    refine ⟨_, ?_, hpruned⟩
    simp only [memoryCache, Ledger.answer, Ledger.value?, hget, Option.map_map]
    rfl
  | consume key =>
    have hkey := hget key
    cases hrow : l.get? key with
    | none =>
      rw [hrow] at hkey
      exact ⟨prune m t, by simp [memoryCache, hkey, Ledger.answer, Ledger.value?, hrow],
        by simpa [Ledger.after, hrow] using hpruned⟩
    | some r =>
      by_cases hopen : r.open t = true
      · simp only [hrow, Option.filter, hopen, if_true, Option.map_some] at hkey
        exact ⟨(prune m t).erase key,
          by simp [memoryCache, hkey, Ledger.answer, Ledger.value?, hrow, Option.filter, hopen],
          by simpa [Ledger.after, hrow, hopen] using hpruned.consume key r⟩
      · simp only [hrow, Option.filter, hopen] at hkey
        exact ⟨prune m t,
          by simp [memoryCache, hkey, Ledger.answer, Ledger.value?, hrow, Option.filter, hopen],
          by simpa [Ledger.after, hrow, hopen] using hpruned⟩

/-- The cache in memory stores a key again. -/
theorem memoryCache_reuse (h : Tracks m l now) (hle : now.ms ≤ t.ms) {key value : String} {ttlMs : Int}
    (hreuse : l.reuses t (.put key value ttlMs) = true) :
    (memoryCache m t (.put key value ttlMs)).1 = .stored true := by
  have hkey := h t hle key
  cases hrow : l.get? key with
  | none => simp [Ledger.reuses, hrow] at hreuse
  | some r =>
    have hopen : r.open t = false := by simpa [Ledger.reuses, hrow] using hreuse
    simp only [hrow, Option.filter, hopen] at hkey
    simp [memoryCache, hkey]

/-! ## The adapter in PostgreSQL -/

theorem oneUseConflict_replayed :
    oneUseConflict (.invalidRequest "replayed assertion or proof detected") = true := by decide

/-- The row of a record of the ledger. -/
structure RowFor (row : Postgres.OidcRow) (r : Row) : Prop where
  payload : row.payload = { rest := r.value }
  expiresAt : row.expiresAt = some r.expiresAt
  version : row.accountSecurityVersion = none
  consumed : r.consumed = true → ∃ t : Instant, row.consumedAt = some t.ms
  unconsumed : r.consumed = false → row.consumedAt = none

structure Rows (realm : String) (db : Postgres.Db) (l : Ledger) : Prop where
  absent : ∀ key, l.get? key = none → db.records.get? (artifact realm key) = none
  present : ∀ key r, l.get? key = some r →
    ∃ row, db.records.get? (artifact realm key) = some row ∧ RowFor row r

variable {realm key value : String} {db : Postgres.Db} {r : Row} {ttlMs : Int}

theorem artifact_inj {key' : String} : artifact realm key = artifact realm key' ↔ key = key' := by
  simp [artifact]

theorem Rows.set (h : Rows realm db l) (key : String) {row : Postgres.OidcRow} (hrow : RowFor row r) :
    Rows realm { db with records := db.records.set (artifact realm key) row } (l.set key r) := by
  constructor
  case absent =>
    intro key' hkey'
    rw [OrderedMap.get?_set] at hkey' ⊢
    simp only [artifact_inj]
    split at hkey'
    · cases hkey'
    · rename_i hne
      rw [if_neg hne]
      exact h.absent key' hkey'
  case present =>
    intro key' r' hkey'
    rw [OrderedMap.get?_set] at hkey' ⊢
    simp only [artifact_inj]
    split at hkey'
    · rename_i heq
      cases hkey'
      exact ⟨row, by rw [if_pos heq], hrow⟩
    · rename_i hne
      rw [if_neg hne]
      exact h.present key' r' hkey'

/-- The row that the statement proposes for a new key. -/
def newRow (now : Instant) (value : String) (ttlMs : Int) : Postgres.OidcRow :=
  Postgres.proposedRow now { rest := value } (some ttlMs) none none none 0

theorem checkInput_ok (hkey : key ≠ "") (httl : 1 ≤ ttlMs) :
    Postgres.checkInput key { rest := value } (some ttlMs) = .ok none := by
  have httl' : ¬ ttlMs < 0 := by omega
  simp only [Postgres.checkInput, Postgres.requiredIdentifier, Postgres.ttlSeconds,
    Postgres.consumedAt, Postgres.optionalIdentifier, Postgres.requireUuid, hkey, httl', if_false]
  rfl

theorem prepare_ok (hplain : (Op.put key value ttlMs).plain fits = true) (hkey : key ≠ "")
    (httl : 1 ≤ ttlMs) : Postgres.prepare key { rest := value } (some ttlMs) = .ok none := by
  simp only [Op.plain, Bool.and_eq_true, decide_eq_true_eq] at hplain
  obtain ⟨⟨htext, hjsonb⟩, -⟩ := hplain
  rw [Postgres.prepare, checkInput_ok hkey httl, htext, Postgres.asPayload, hjsonb]
  rfl

theorem postgres_upsert (hplain : (Op.put key value ttlMs).plain fits = true) (hkey : key ≠ "")
    (httl : 1 ≤ ttlMs) :
    Postgres.upsert db now (artifact realm key) { rest := value } (some ttlMs) 0 =
      match db.records.get? (artifact realm key) with
      | none =>
        .ok { db with records := db.records.set (artifact realm key) (newRow now value ttlMs) }
      | some _ => .error (.invalidRequest "replayed assertion or proof detected") := by
  have hsecurity : Postgres.security db now realm none none = some (none, none) := by
    simp [Postgres.security, Postgres.account, Postgres.parentAccount, Postgres.parentGrant]
  have hunique : Postgres.duplicates db (artifact realm key) { rest := value } = false := by
    simp [Postgres.duplicates, Postgres.collides]
  unfold Postgres.upsert Postgres.upsertStatement
  simp only [artifact] at hunique ⊢
  rw [prepare_ok hplain hkey httl]
  simp only [hsecurity, hunique]
  cases hget : db.records.get? ⟨realm, "ReplayDetection", key⟩ with
  | none => rfl
  | some _ => rfl

theorem checkIdentifier_ok (hplain : (Op.get key).plain fits = true) (hkey : key ≠ "") :
    Postgres.checkIdentifier key "id" = .ok () := by
  have htext : Postgres.asText key = .ok () := by simpa only [Op.plain, decide_eq_true_eq] using hplain
  rw [Postgres.checkIdentifier, Postgres.requiredIdentifier, if_neg hkey, htext]
  rfl

theorem postgresAdapter_upsert (hplain : (Op.put key value ttlMs).plain fits = true) (hkey : key ≠ "")
    (httl : 1 ≤ ttlMs) :
    (postgresAdapter fits realm).upsert db now key { rest := value } (some ttlMs) =
      match db.records.get? (artifact realm key) with
      | none =>
        (.ok (), { db with records := db.records.set (artifact realm key) (newRow now value ttlMs) })
      | some _ => (.error (.invalidRequest "replayed assertion or proof detected"), db) := by
  have hfits : fits key value = true := by
    simp only [Op.plain, Bool.and_eq_true] at hplain
    exact hplain.2
  simp only [postgresAdapter, prepare_ok hplain hkey httl, hfits, if_true,
    postgres_upsert hplain hkey httl]
  cases hget : db.records.get? (artifact realm key) with
  | none => rfl
  | some _ => rfl

theorem findBy_id : Postgres.findBy db now realm "ReplayDetection" (.id key) =
    ((db.records.get? (artifact realm key)).filter fun row =>
      row.live now && Postgres.accountCurrent db realm row).map fun row => (artifact realm key, row) := by
  unfold Postgres.findBy
  rw [OrderedMap.findFirst?_of_key (k := artifact realm key)]
  · simp [artifact, Postgres.holds]
  · intro k row hk
    simp only [Bool.and_eq_true, decide_eq_true_eq, Postgres.holds] at hk
    obtain ⟨⟨⟨⟨hrealm, hmodel⟩, hid⟩, -⟩, -⟩ := hk
    exact Key.ext hrealm hmodel hid

theorem RowFor.live {row : Postgres.OidcRow} (h : RowFor row r) :
    row.live now = decide (now.ms < r.expiresAt) := by
  simp [Postgres.OidcRow.live, h.expiresAt]

theorem RowFor.isConsumed {row : Postgres.OidcRow} (h : RowFor row r) :
    (Postgres.restorePayload row).isConsumed = r.consumed := by
  cases hconsumed : r.consumed with
  | true =>
    obtain ⟨t, ht⟩ := h.consumed hconsumed
    have hpos := t.seconds_pos
    simp only [Postgres.restorePayload, ht, Payload.isConsumed, decide_eq_true_eq]
    exact Int.ne_of_gt hpos
  | false =>
    simp [Postgres.restorePayload, h.unconsumed hconsumed, h.payload, Payload.isConsumed]

theorem RowFor.rest {row : Postgres.OidcRow} (h : RowFor row r) :
    (Postgres.restorePayload row).rest = r.value := by
  cases hat : row.consumedAt <;> simp [Postgres.restorePayload, hat, h.payload]

theorem rowFor_newRow (value : String) (ttlMs : Int) :
    RowFor (newRow now value ttlMs) ⟨value, now.ms + ttlMs, false⟩ := by
  constructor
  case payload => simp [newRow, Postgres.proposedRow]
  case expiresAt => rfl
  case version => rfl
  case consumed => exact fun h => absurd h (by simp)
  case unconsumed => exact fun _ => rfl

theorem RowFor.consume {row : Postgres.OidcRow} (h : RowFor row r) (now : Instant) :
    RowFor { row with consumedAt := some now.ms } { r with consumed := true } := by
  constructor
  case payload => exact h.payload
  case expiresAt => exact h.expiresAt
  case version => exact h.version
  case consumed => exact fun _ => ⟨now, rfl⟩
  case unconsumed => exact fun h => absurd h (by simp)

theorem postgres_serves (fits : String → String → Bool) (realm : String) :
    Serves fits (postgresAdapter fits realm) (Rows realm) := by
  constructor
  case put_new =>
    intro db l now key value ttlMs hrows hplain hkey httl hnone
    refine ⟨_, ?_, hrows.set key (rowFor_newRow value ttlMs)⟩
    rw [postgresAdapter_upsert hplain hkey httl, hrows.absent key hnone]
  case put_open =>
    intro db l now key value ttlMs r hrows hplain hkey httl hget hopen
    obtain ⟨row, hrow, -⟩ := hrows.present key r hget
    refine ⟨_, db, ?_, oneUseConflict_replayed, hrows⟩
    rw [postgresAdapter_upsert hplain hkey httl, hrow]
  case find =>
    intro db l now key hrows hplain hkey
    refine ⟨(Postgres.findBy db now realm "ReplayDetection" (.id key)).map fun x =>
      Postgres.restorePayload x.2, db,
      by simp only [postgresAdapter, checkIdentifier_ok hplain hkey], hrows, ?_⟩
    rw [findBy_id, Option.map_map]
    cases hget : l.get? key with
    | none => simp [hrows.absent key hget, Ledger.value?, hget]
    | some r =>
      obtain ⟨row, hrow, hfor⟩ := hrows.present key r hget
      have hcurrent : Postgres.accountCurrent db realm row = true := by
        simp [Postgres.accountCurrent, hfor.version]
      simp only [hrow, Option.filter, hfor.live, hcurrent, Bool.and_true, Ledger.value?, hget, Row.open]
      by_cases hlive : now.ms < r.expiresAt
      · simp [hlive, hfor.isConsumed, hfor.rest]
        cases r.consumed <;> rfl
      · simp [hlive]
  case consume =>
    intro db l now key r hrows hplain hkey hget hopen
    obtain ⟨row, hrow, hfor⟩ := hrows.present key r hget
    simp only [Row.open, Bool.and_eq_true, decide_eq_true_eq, Bool.not_eq_true'] at hopen
    refine ⟨_, ?_, hrows.set key (hfor.consume now)⟩
    have hstatement : Postgres.consumeStatement db now (artifact realm key) =
        some { db with records := db.records.set (artifact realm key)
                                    { row with consumedAt := some now.ms } } := by
      simp [Postgres.consumeStatement, hrow, hfor.unconsumed hopen.2, hfor.live, hopen.1]
    simp only [postgresAdapter, checkIdentifier_ok hplain hkey, Postgres.consume, hstatement]
    rfl

/-! ## The adapter in memory -/

/-- The object of a record of the ledger. -/
structure ObjectFor (realm key : String) (object : Memory.Record) (r : Row) : Prop where
  rest : object.payload.rest = r.value
  isConsumed : object.payload.isConsumed = r.consumed
  expiresAt : object.expiresAt = some r.expiresAt
  version : object.securityVersion = none
  key : object.key = artifact realm key

structure Objects (realm : String) (s : Memory.State) (l : Ledger) : Prop where
  wf : Memory.Wf s
  absent : ∀ key, l.get? key = none → s.record? (artifact realm key) = none
  present : ∀ key r, l.get? key = some r →
    ∃ ref object, s.record? (artifact realm key) = some (ref, object) ∧ ObjectFor realm key object r

variable {st : Memory.State} {ref : Nat} {object : Memory.Record}

theorem record?_save (hwf : Memory.Wf st) (k k' : Key) (object : Memory.Record) :
    (((st.finish st.tick).save k object).tock).record? k' =
      if k' = k then some (st.tick, object) else st.record? k' := by
  simp only [Memory.State.record?, Memory.State.tock, Memory.State.save, Memory.State.finish,
    OrderedMap.get?_set]
  split
  · simp
  · cases hget : st.store.get? k' with
    | none => rfl
    | some ref =>
      obtain ⟨object', hobject'⟩ := hwf.store hget
      have hne : ref ≠ st.tick := Nat.ne_of_lt (hwf.heap_lt hobject')
      simp [Function.update_of_ne hne]

theorem Objects.save (h : Objects realm st l) (hobject : ObjectFor realm key object r) :
    Objects realm ((st.finish st.tick).save (artifact realm key) object).tock (l.set key r) := by
  constructor
  case wf => exact h.wf.save st.tick _ object
  case absent =>
    intro key' hkey'
    rw [OrderedMap.get?_set] at hkey'
    rw [record?_save h.wf]
    simp only [artifact_inj]
    split at hkey'
    · cases hkey'
    · rename_i hne
      rw [if_neg hne]
      exact h.absent key' hkey'
  case present =>
    intro key' r' hkey'
    rw [OrderedMap.get?_set] at hkey'
    rw [record?_save h.wf]
    simp only [artifact_inj]
    split at hkey'
    · rename_i heq
      cases hkey'
      exact ⟨st.tick, object, by rw [if_pos heq], heq ▸ hobject⟩
    · rename_i hne
      rw [if_neg hne]
      exact h.present key' r' hkey'

/-- The objects of two keys are two. -/
theorem record?_update (h : Objects realm st l) {key' : String} (hne : key' ≠ key)
    (hobject : st.record? (artifact realm key) = some (ref, object))
    (hkey : object.key = artifact realm key) (object' : Memory.Record) :
    ({ st with heap := Function.update st.heap ref (some object') } : Memory.State).tock.record?
      (artifact realm key') = st.record? (artifact realm key') := by
  simp only [Memory.State.record?, Memory.State.tock]
  cases hget : st.store.get? (artifact realm key') with
  | none => rfl
  | some ref' =>
    obtain ⟨object₁, hobject₁⟩ := h.wf.store hget
    have hrecord := Memory.record?_eq_some.mpr ⟨hget, hobject₁⟩
    have hown : object₁.key = artifact realm key' := by
      cases hrow : l.get? key' with
      | none =>
        rw [h.absent key' hrow] at hrecord
        cases hrecord
      | some r' =>
        obtain ⟨ref₂, object₂, hrecord₂, hfor⟩ := h.present key' r' hrow
        rw [hrecord] at hrecord₂
        cases hrecord₂
        exact hfor.key
    have href : ref' ≠ ref := by
      rintro rfl
      rw [(Memory.record?_eq_some.mp hobject).2] at hobject₁
      cases hobject₁
      exact hne (artifact_inj.mp (hown.symm.trans hkey))
    simp [Function.update_of_ne href]

theorem Objects.consume (h : Objects realm st l) (hget : l.get? key = some r)
    (hobject : st.record? (artifact realm key) = some (ref, object))
    (hfor : ObjectFor realm key object r) (now : Instant) :
    Objects realm
      ({ st with heap := Function.update st.heap ref (some (object.consume now)) } :
        Memory.State).tock (l.set key { r with consumed := true }) := by
  have hheap := (Memory.record?_eq_some.mp hobject).2
  constructor
  case wf => exact h.wf.consume hheap
  case absent =>
    intro key' hkey'
    rw [OrderedMap.get?_set] at hkey'
    split at hkey'
    · cases hkey'
    · rename_i hne
      rw [record?_update h hne hobject hfor.key]
      exact h.absent key' hkey'
  case present =>
    intro key' r' hkey'
    rw [OrderedMap.get?_set] at hkey'
    split at hkey'
    · rename_i heq
      cases hkey'
      subst heq
      refine ⟨ref, object.consume now, ?_, ?_⟩
      · exact Memory.record?_eq_some.mpr ⟨(Memory.record?_eq_some.mp hobject).1, by simp [Memory.State.tock]⟩
      · exact ⟨hfor.rest, Memory.isConsumed_consume object now, hfor.expiresAt, hfor.version, hfor.key⟩
    · rename_i hne
      rw [record?_update h hne hobject hfor.key]
      exact h.present key' r' hkey'

theorem Objects.quiet (h : Objects realm st l) : Objects realm (st.finish st.tick).tock l :=
  ⟨h.wf.finish st.tick, h.absent, h.present⟩

theorem ObjectFor.live (h : ObjectFor realm key object r) :
    object.live now = decide (now.ms < r.expiresAt) := by
  simp [Memory.Record.live, h.expiresAt]

/-- What an `upsert` of a new key saves. -/
def newObject (realm key : String) (st : Memory.State) (now : Instant) (value : String) (ttlMs : Int) :
    Memory.Record :=
  ⟨{ rest := value }, none, some (now.ms + ttlMs), artifact realm key, st.tick⟩

theorem alone_upsert_new (hnone : st.record? (artifact realm key) = none) :
    alone st now (.upsert (artifact realm key) { rest := value } (some ttlMs)) =
      (((st.finish st.tick).save (artifact realm key)
        (newObject realm key st now value ttlMs)).tock, .saved (artifact realm key)) := by
  have hlive : st.live? now (artifact realm key) = none := by simp [Memory.State.live?, hnone]
  simp [alone, Memory.step, Memory.perform, Memory.upsert, hlive, hnone, Memory.mergeConsumed,
    Memory.upsertOwn, Memory.upsertWrite, goOn, newObject]

theorem alone_upsert_live (hlive : (st.live? now (artifact realm key)).isSome = true) :
    alone st now (.upsert (artifact realm key) { rest := value } (some ttlMs)) =
      ((st.finish st.tick).tock,
        .failed (.invalidRequest "replayed assertion or proof detected")) := by
  have hmodel : (artifact realm key).model = "ReplayDetection" := rfl
  simp [alone, Memory.step, Memory.perform, Memory.upsert, hlive, hmodel, goOn]

theorem select_id : Memory.select st now realm "ReplayDetection" (.id key) =
    (st.live? now (artifact realm key)).map fun x => (artifact realm key, x) := by
  unfold Memory.select
  rw [OrderedMap.findFirst?_of_key (k := artifact realm key)]
  · simp only [Memory.State.live?, Memory.State.record?, artifact, Memory.holds, decide_true,
      Bool.true_and, Bool.and_true]
    cases hget : st.store.get? ⟨realm, "ReplayDetection", key⟩ with
    | none => rfl
    | some ref =>
      cases hheap : st.heap ref with
      | none => simp [Option.filter, hheap]
      | some object =>
        by_cases hlive : object.live now = true <;> simp [Option.filter, hheap, hlive]
  · intro k ref hk
    simp only [Bool.and_eq_true, decide_eq_true_eq] at hk
    obtain ⟨⟨hrealm, hmodel⟩, hmatch⟩ := hk
    split at hmatch
    · cases hmatch
    · simp only [Memory.holds, Bool.and_eq_true, decide_eq_true_eq] at hmatch
      exact Key.ext hrealm hmodel hmatch.2

theorem memory_serves (fits : String → String → Bool) (realm : String) :
    Serves fits (memoryAdapter realm) (Objects realm) := by
  constructor
  case put_new =>
    intro st l now key value ttlMs hobjects _ _ _ hnone
    have hfor : ObjectFor realm key (newObject realm key st now value ttlMs)
        ⟨value, now.ms + ttlMs, false⟩ := ⟨rfl, rfl, rfl, rfl, rfl⟩
    refine ⟨_, ?_, hobjects.save hfor⟩
    simp only [memoryAdapter, alone_upsert_new (hobjects.absent key hnone), settled]
  case put_open =>
    intro st l now key value ttlMs r hobjects _ _ _ hget hopen
    obtain ⟨ref, object, hrecord, hfor⟩ := hobjects.present key r hget
    simp only [Row.open, Bool.and_eq_true] at hopen
    have hlive : st.live? now (artifact realm key) = some (ref, object) :=
      Memory.live?_eq_some.mpr ⟨hrecord, by rw [hfor.live, hopen.1]⟩
    refine ⟨_, _, ?_, oneUseConflict_replayed, hobjects.quiet⟩
    simp only [memoryAdapter, alone_upsert_live (by rw [hlive]; rfl), settled]
  case find =>
    intro st l now key hobjects _ _
    cases hlive : st.live? now (artifact realm key) with
    | none =>
      refine ⟨none, (st.finish st.tick).tock, ?_, hobjects.quiet, ?_⟩
      · simp [memoryAdapter, alone, Memory.step, Memory.perform, Memory.find, select_id, hlive, goOn]
      · cases hget : l.get? key with
        | none => simp [Ledger.value?, hget]
        | some r =>
          obtain ⟨ref, object, hrecord, hfor⟩ := hobjects.present key r hget
          have hexpired : ¬ now.ms < r.expiresAt := by
            simpa [Memory.State.live?, hrecord, Option.filter, hfor.live] using hlive
          simp [Ledger.value?, hget, Option.filter, Row.open, hexpired]
    | some x =>
      obtain ⟨ref, object⟩ := x
      obtain ⟨hrecord, hobject⟩ := Memory.live?_eq_some.mp hlive
      cases hget : l.get? key with
      | none =>
        rw [hobjects.absent key hget] at hrecord
        cases hrecord
      | some r =>
        obtain ⟨ref', object', hrecord', hfor⟩ := hobjects.present key r hget
        rw [hrecord] at hrecord'
        cases hrecord'
        refine ⟨some object.payload, (st.finish st.tick).tock, ?_, hobjects.quiet, ?_⟩
        · simp [memoryAdapter, alone, Memory.step, Memory.perform, Memory.find, select_id, hlive, goOn,
            hfor.version]
        · rw [hfor.live] at hobject
          simp only [Option.bind_some, hfor.isConsumed, hfor.rest, Ledger.value?, hget, Option.filter,
            Row.open, hobject, Bool.true_and]
          cases r.consumed <;> rfl
  case consume =>
    intro st l now key r hobjects _ _ hget hopen
    obtain ⟨ref, object, hrecord, hfor⟩ := hobjects.present key r hget
    simp only [Row.open, Bool.and_eq_true, Bool.not_eq_true'] at hopen
    have hlive : st.live? now (artifact realm key) = some (ref, object) :=
      Memory.live?_eq_some.mpr ⟨hrecord, by rw [hfor.live, hopen.1]⟩
    refine ⟨_, ?_, hobjects.consume hget hrecord hfor now⟩
    simp [memoryAdapter, alone, Memory.step, Memory.perform, Memory.consume, Memory.markConsumed,
      hlive, hfor.isConsumed, hopen.2, goOn, settled]

/-! ## Where the caches part -/

/-- The refusal of a parameter is an error of the database. -/
theorem asText_eq_error {text : String} {e : AdapterError} (h : Postgres.asText text = .error e) :
    ∃ code, e = .database code := by
  unfold Postgres.asText at h
  split at h
  · cases h
    exact ⟨_, rfl⟩
  · cases h

theorem checkEscapes_eq_error {high : Bool} {text : List Char} {e : AdapterError}
    (h : Postgres.checkEscapes high text = .error e) : ∃ code, e = .database code := by
  fun_induction Postgres.checkEscapes high text
  all_goals first
    | exact ⟨_, (Except.error.inj h).symm⟩
    | (rename_i ih; exact ih h)
    | cases h

theorem asJsonb_eq_error {text : String} {e : AdapterError} (h : Postgres.asJsonb text = .error e) :
    ∃ code, e = .database code := by
  unfold Postgres.asJsonb at h
  cases htext : Postgres.asText text with
  | error e' =>
    rw [htext] at h
    cases h
    exact asText_eq_error htext
  | ok _ =>
    rw [htext] at h
    exact checkEscapes_eq_error h

theorem upsert_not_plain (hkey : key ≠ "") (httl : 1 ≤ ttlMs)
    (hplain : (Op.put key value ttlMs).plain fits = false) :
    ∃ code, (postgresAdapter fits realm).upsert db now key { rest := value } (some ttlMs) =
      (.error (.database code), db) := by
  have hprepare : Postgres.prepare key { rest := value } (some ttlMs) = (do
      Postgres.asText key
      Postgres.asJsonb value
      return none) := by
    rw [Postgres.prepare, checkInput_ok hkey httl]
    rfl
  simp only [postgresAdapter, hprepare]
  cases htext : Postgres.asText key with
  | error e =>
    obtain ⟨code, rfl⟩ := asText_eq_error htext
    exact ⟨code, rfl⟩
  | ok _ =>
    cases hjsonb : Postgres.asJsonb value with
    | error e =>
      obtain ⟨code, rfl⟩ := asJsonb_eq_error hjsonb
      exact ⟨code, rfl⟩
    | ok _ =>
      have hfits : fits key value = false := by
        simpa [Op.plain, htext, hjsonb] using hplain
      exact ⟨"54000", by simp only [hfits]; rfl⟩

theorem checkIdentifier_not_plain (hkey : key ≠ "") (hplain : (Op.get key).plain fits = false) :
    ∃ code, Postgres.checkIdentifier key "id" = .error (.database code) := by
  rw [Postgres.checkIdentifier, Postgres.requiredIdentifier, if_neg hkey]
  cases htext : Postgres.asText key with
  | error e =>
    obtain ⟨code, rfl⟩ := asText_eq_error htext
    exact ⟨code, rfl⟩
  | ok _ => simp [Op.plain, htext] at hplain

/-- PostgreSQL does not take the texts. -/
theorem postgres_not_plain (hchecked : op.checked) (hplain : op.plain fits = false) :
    ∃ code, (adapterCache (postgresAdapter fits realm) db now op).1 = .thrown (.database code) := by
  cases op with
  | put key value ttlMs =>
    obtain ⟨code, hupsert⟩ : ∃ code, (postgresAdapter fits realm).upsert db now key { rest := value }
        (some ttlMs) = (.error (.database code), db) :=
      upsert_not_plain hchecked.1 hchecked.2 hplain
    exact ⟨code, by simp only [adapterCache, hupsert]; rfl⟩
  | get key | consume key =>
    have hget : (Op.get key).plain fits = false := hplain
    obtain ⟨code, hcheck⟩ := checkIdentifier_not_plain hchecked hget
    exact ⟨code, by simp only [adapterCache, postgresAdapter, hcheck]⟩

/-- In PostgreSQL a key is not stored again. -/
theorem postgres_reuse (h : Rows realm db l) (hchecked : (Op.put key value ttlMs).checked)
    (hplain : (Op.put key value ttlMs).plain fits = true)
    (hreuse : l.reuses now (.put key value ttlMs) = true) :
    (adapterCache (postgresAdapter fits realm) db now (.put key value ttlMs)).1 = .stored false := by
  cases hget : l.get? key with
  | none => simp [Ledger.reuses, hget] at hreuse
  | some r =>
    obtain ⟨row, hrow, -⟩ := h.present key r hget
    simp [adapterCache, postgresAdapter_upsert hplain hchecked.1 hchecked.2, hrow,
      oneUseConflict_replayed]

theorem memoryCache_not_thrown (m : Records) (e : AdapterError) :
    (memoryCache m now op).1 ≠ .thrown e := by
  cases op with
  | put key value ttlMs =>
    simp only [memoryCache]
    split <;> simp
  | get key => simp [memoryCache]
  | consume key =>
    simp only [memoryCache]
    split <;> simp

/-- Times that do not go back. -/
def Ordered (calls : List (Instant × Call)) : Prop := calls.Pairwise fun x y => x.1.ms ≤ y.1.ms

/-- The three caches give the same results. -/
def Agree (fits : String → String → Bool) (realm : String) (m : Records) (st : Memory.State)
    (db : Postgres.Db) (calls : List (Instant × Call)) : Prop :=
  results memoryCache m calls = results (adapterCache (memoryAdapter realm)) st calls ∧
    results memoryCache m calls = results (adapterCache (postgresAdapter fits realm)) db calls

theorem agree_iff (calls : List (Instant × Call)) (htimes : Ordered calls)
    (hnow : ∀ x ∈ calls, now.ms ≤ x.1.ms) (hm : Tracks m l now) (hst : Objects realm st l)
    (hdb : Rows realm db l) : Agree fits realm m st db calls ↔ usesOnce fits l calls = true := by
  induction calls generalizing now l m st db with
  | nil => exact ⟨fun _ => rfl, fun _ => ⟨rfl, rfl⟩⟩
  | cons x rest ih =>
    obtain ⟨t, c⟩ := x
    have hle : now.ms ≤ t.ms := hnow (t, c) (.head rest)
    obtain ⟨hlater, hrest⟩ := List.pairwise_cons.mp htimes
    simp only [Agree, results, usesOnce]
    cases hcheck : c.check with
    | error e =>
      have hnow' : ∀ y ∈ rest, now.ms ≤ y.1.ms := fun y hy => hnow y (.tail _ hy)
      simpa [Agree] using ih hrest hnow' hm hst hdb
    | ok op =>
      have hchecked := checked_of_check hcheck
      simp only [List.cons.injEq]
      cases hplain : op.plain fits with
      | false =>
        obtain ⟨code, hthrown⟩ : ∃ code,
            (adapterCache (postgresAdapter fits realm) db t op).1 = .thrown (.database code) :=
          postgres_not_plain hchecked hplain
        simp only [hthrown, Bool.false_and, Bool.false_eq_true, iff_false]
        exact fun h => memoryCache_not_thrown m _ h.2.1
      | true =>
        cases honce : l.reuses t op with
        | true =>
          cases op with
          | put key value ttlMs =>
            have hnew := memoryCache_reuse hm hle honce
            have hold := postgres_reuse hdb hchecked hplain honce
            simp [hnew, hold]
          | get | consume => cases honce
        | false =>
          obtain ⟨m', hm', htracks⟩ := memoryCache_step hm hle honce
          obtain ⟨st', hst', hobjects⟩ := (memory_serves fits realm).step hst hchecked hplain honce
          obtain ⟨db', hdb', hrows⟩ := (postgres_serves fits realm).step hdb hchecked hplain honce
          have hih := ih hrest (fun y hy => hlater y hy) htracks hobjects hrows
          simpa [hm', hst', hdb', Agree] using hih

/-! ## From the start -/

theorem tracks_empty : Tracks .empty .empty now := by
  intro t _ key
  rw [get?_prune]
  rfl

theorem rows_empty (users : String → Uuid → Slot) : Rows realm ⟨users, .empty⟩ .empty := by
  constructor
  case absent => exact fun _ _ => rfl
  case present => exact fun _ _ h => absurd h (by simp)

theorem objects_empty (users : String → String → Slot) :
    Objects realm (.initial users) .empty := by
  constructor
  case wf => exact Memory.wf_initial users
  case absent => exact fun _ _ => rfl
  case present => exact fun _ _ h => absurd h (by simp)

/-- The three caches agree on the calls if and only if each call has plain texts and none stores a
key again whose record was consumed or has expired. -/
theorem replay_caches_agree_iff (fits : String → String → Bool) (realm : String)
    (users : String → String → Slot) (rows : String → Uuid → Slot)
    (calls : List (Instant × Call)) (htimes : Ordered calls) :
    Agree fits realm .empty (.initial users) ⟨rows, .empty⟩ calls ↔ usesOnce fits .empty calls = true := by
  have hstart : ∀ x ∈ calls, (⟨1000, Int.le_refl _⟩ : Instant).ms ≤ x.1.ms := fun x _ => x.1.afterEpoch
  exact agree_iff calls htimes hstart tracks_empty (objects_empty users) (rows_empty rows)

def nobody {α : Type} : String → α → Slot := fun _ _ => .unused

/-- Within the limits: what has no more than 2000 characters. -/
def roomy (key value : String) : Bool := key.length + value.length ≤ 2000

def noon : Instant := ⟨43200001, by decide⟩

/-- A response that is stored, offered again and read, and then consumed. -/
def usedOnce : List (Instant × Call) :=
  [(noon, .putIfAbsent (some "state") "true" (some 60000)),
    (noon, .putIfAbsent (some "state") "false" (some 60000)), (noon, .get (some "state")),
    (noon, .consume (some "state")), (noon, .consume (some "state"))]

theorem agree_usedOnce : Agree roomy "acme" .empty (.initial nobody) ⟨nobody, .empty⟩ usedOnce := by
  have htimes : Ordered usedOnce := by simp [Ordered, usedOnce]
  have honce : usesOnce roomy .empty usedOnce = true := by decide
  exact (replay_caches_agree_iff roomy "acme" nobody nobody usedOnce htimes).mpr honce

/-- The key is stored again after it was consumed. -/
def usedTwice : List (Instant × Call) :=
  [(noon, .putIfAbsent (some "state") "true" (some 60000)), (noon, .consume (some "state")),
    (noon, .putIfAbsent (some "state") "true" (some 60000))]

/-- Only `MemorySamlReplayCache` takes a consumed key as new. -/
theorem disagree_usedTwice : Ordered usedTwice ∧
    results memoryCache .empty usedTwice =
      [.stored true, .value (some "true"), .stored true] ∧
    results (adapterCache (memoryAdapter "acme")) (.initial nobody) usedTwice =
      [.stored true, .value (some "true"), .stored false] ∧
    results (adapterCache (postgresAdapter roomy "acme")) ⟨nobody, .empty⟩ usedTwice =
      [.stored true, .value (some "true"), .stored false] ∧
    ¬ Agree roomy "acme" .empty (.initial nobody) ⟨nobody, .empty⟩ usedTwice := by
  have htimes : Ordered usedTwice := by simp [Ordered, usedTwice]
  have hmemory : results memoryCache .empty usedTwice =
      [.stored true, .value (some "true"), .stored true] := by decide
  have hadapter : results (adapterCache (memoryAdapter "acme")) (.initial nobody) usedTwice =
      [.stored true, .value (some "true"), .stored false] := by decide
  have hpostgres : results (adapterCache (postgresAdapter roomy "acme")) ⟨nobody, .empty⟩ usedTwice =
      [.stored true, .value (some "true"), .stored false] := by decide
  refine ⟨htimes, hmemory, hadapter, hpostgres, ?_⟩
  rintro ⟨hagree, -⟩
  rw [hmemory, hadapter] at hagree
  cases hagree

end AuthMe.Federation.ReplayCache

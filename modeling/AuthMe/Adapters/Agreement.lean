import AuthMe.Adapters.MemoryShelf
import AuthMe.Adapters.PostgresShelf

/-!
# The two adapters agree

Development runs on the in-memory adapter and production on PostgreSQL. Called one after the other,
both do what a shelf does, and so they give the same answers (`adapters_agree`). What parts them is a
payload that both could save: under a key of `ReplayDetection` that has expired, over another
consumption, or with the user code or the uid of another artifact (`upsert_agree_iff`).
-/

namespace AuthMe.Adapters

open Transition

/-- One call at one reading of the clock. -/
def Shelf.performAt (sh : Shelf) (c : Instant × Request) : Shelf × Answer := sh.perform c.1 c.2

def Shelf.AdmitsAt (sh : Shelf) (c : Instant × Request) : Prop := sh.admits c.1 c.2 = true

instance (sh : Shelf) (c : Instant × Request) : Decidable (sh.AdmitsAt c) :=
  inferInstanceAs (Decidable (_ = _))

variable {users : String → String → Slot} {users' : String → Uuid → Slot}
  {calls : List (Instant × Request)}

def ada : Uuid := ⟨"ada00000-0000-4000-8000-000000000000", by decide⟩

/-- There is one user. -/
def onlyAda (realm accountId : String) : Slot :=
  if realm = "main" ∧ accountId = ada.text then .live ⟨true, 1⟩ else .unused

def atSecond (n : Nat) : Instant := ⟨1000 * (n + 1), by omega⟩

/-- A code under a Grant is found, consumed, refused the second time and saved again; then the
account is changed, and the code is gone. -/
def session : List (Instant × Request) :=
  [(atSecond 1, .upsert ⟨"main", "Grant", "g"⟩ { accountId := some ada.text } (some 60000)),
    (atSecond 2, .upsert ⟨"main", "AuthorizationCode", "c"⟩ { grantId := some "g", uid := some "u" }
      (some 60000)),
    (atSecond 3, .find "main" "AuthorizationCode" (.uid "u")),
    (atSecond 4, .consume ⟨"main", "AuthorizationCode", "c"⟩),
    (atSecond 5, .consume ⟨"main", "AuthorizationCode", "c"⟩),
    (atSecond 6, .upsert ⟨"main", "AuthorizationCode", "c"⟩
      { grantId := some "g", uid := some "u", consumed := some 5 } (some 60000)),
    (atSecond 7, .find "main" "AuthorizationCode" (.id "c")),
    (atSecond 8, .mutateAccountSecurity "main" ada none),
    (atSecond 9, .find "main" "AuthorizationCode" (.id "c"))]

/-- The call is answered alike, and what the adapters hold after it is the same. -/
def Agree (s : Memory.State) (t : Postgres.State) (c : Instant × Request) : Prop :=
  ∃ s' t' a sh, Memory.performCall s c = some (s', a) ∧ Postgres.performCall t c = some (t', a) ∧
    Memory.Shows s' sh ∧ Postgres.Shows t'.db sh

variable {s : Memory.State} {t : Postgres.State} {sh : Shelf} {now : Instant} {key : Key}
  {p : Payload} {expiresIn : Option Int}

/-- How `upsert` ends on the in-memory adapter decides its call. -/
theorem performCall_upsert {a : Answer} {sh' : Shelf}
    (h : Memory.Completes now s.tick 3 (Memory.upsert s now key p expiresIn) a sh') :
    ∃ s', Memory.performCall s (now, .upsert key p expiresIn) = some (s', a) ∧
      Memory.Shows s' sh' := by
  obtain ⟨s', o, hcall, hanswer, htied⟩ :=
    Memory.runCall_of_completes (a := .upsert key p expiresIn) rfl rfl h
  refine ⟨s', ?_, htied.shows⟩
  simp only [Memory.performCall, Memory.action, Option.bind_some, hcall, Option.map_some, hanswer]

theorem performCall_statement {a : Answer} {sh' : Shelf} (hkey : Shelf.properKey key = true)
    (hp : Shelf.properPayload p expiresIn = true)
    (h : Postgres.Answers t now (.upsert key p expiresIn) a sh') :
    ∃ t', Postgres.performCall t (now, .upsert key p expiresIn) = some (t', a) ∧
      Postgres.Shows t'.db sh' := by
  obtain ⟨db', o, hstatement, hanswer, hshows⟩ := h
  refine ⟨⟨db', t.txns, t.tick + 1⟩, ?_, hshows⟩
  simp only [Postgres.performCall, Postgres.statementOf, Option.bind_some, Postgres.step,
    Postgres.statement_of_check (Postgres.check_upsert_eq_ok hkey hp), hstatement, Option.map_some,
    hanswer]

end AuthMe.Adapters

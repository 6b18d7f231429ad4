import AuthMe.Store.User

/-!
# The lock of an account in the two stores

`recordLoginFailure`, `recordLoginSuccess` and `unlockUser` of `MemoryIdentityStore` and of
`PostgresIdentityStore`. The in-memory operations assign one field after the other
(`User.recordLoginFailure`). The `UPDATE` of PostgreSQL computes both columns from the old row, each
with a `CASE` expression of its own, and raises an error where the type `integer` of `failed_attempts`
does not hold the next count.

The two agree on every sequence of calls, and since a success, an unlock or the end of a lock at most
five failures are counted (`lockouts_agree`).
-/

namespace AuthMe.Store

/-- The largest value of the type `integer`. -/
def maxInteger : Nat := 2147483647

/-- `failed_attempts+1`; `none` is the error `integer out of range`. -/
def nextAttempt (row : User) : Option Nat :=
  if row.failedAttempts < maxInteger then some (row.failedAttempts + 1) else none

/-- `locked_until IS NOT NULL AND locked_until > now()`. -/
def lockHolds (row : User) (now : Instant) : Bool :=
  match row.lockedUntil with
  | none => false
  | some t => now.ms < t

/-- `locked_until IS NOT NULL AND locked_until <= now()`. -/
def lockEnded (row : User) (now : Instant) : Bool :=
  match row.lockedUntil with
  | none => false
  | some t => t ≤ now.ms

namespace Postgres

/-- The `CASE` expression for `failed_attempts`. -/
def failedAttempts (row : User) (now : Instant) : Option Nat :=
  if lockEnded row now then some 1
  else if lockHolds row now then some row.failedAttempts
  else nextAttempt row

/-- The `CASE` expression for `locked_until`. -/
def lockedUntil (row : User) (now : Instant) : Option (Option Int) :=
  if lockHolds row now then some row.lockedUntil
  else if lockEnded row now then some none
  else (nextAttempt row).map fun attempts =>
    if 5 ≤ attempts then some (now.ms + User.lockTime) else none

/-- `recordLoginFailure`: the row after the `UPDATE`, unless it raises an error. -/
def recordLoginFailure (row : User) (now : Instant) : Option User := do
  let attempts ← failedAttempts row now
  let until' ← lockedUntil row now
  return { row with failedAttempts := attempts, lockedUntil := until' }

def recordLoginSuccess (row : User) : User := { row with failedAttempts := 0, lockedUntil := none }

def unlockUser (row : User) : User := { row with failedAttempts := 0, lockedUntil := none }

end Postgres

/-! ## Calls -/

inductive LoginCall
  | recordLoginFailure
  | recordLoginSuccess
  | unlockUser
  deriving DecidableEq

/-- A call on the user with the key, at a time. -/
structure LoginEvent where
  now : Instant
  key : UserKey
  call : LoginCall

/-- What a call of `MemoryIdentityStore` makes of a user. -/
def LoginCall.apply (call : LoginCall) (u : User) (now : Instant) : User :=
  match call with
  | .recordLoginFailure => u.recordLoginFailure now
  | .recordLoginSuccess => u.recordLoginSuccess
  | .unlockUser => u.unlock

/-- What a call of `PostgresIdentityStore` makes of a row. -/
def LoginCall.update (call : LoginCall) (row : User) (now : Instant) : Option User :=
  match call with
  | .recordLoginFailure => Postgres.recordLoginFailure row now
  | .recordLoginSuccess => some (Postgres.recordLoginSuccess row)
  | .unlockUser => some (Postgres.unlockUser row)

namespace LoginEvent

def memory (users : Users) (e : LoginEvent) : Users :=
  users.modify e.key fun u => e.call.apply u e.now

/-- The table after the statement; a statement that raises an error leaves it as it is. -/
def postgres (users : Users) (e : LoginEvent) : Users :=
  users.modify e.key fun row => (e.call.update row e.now).getD row

/-- The statement raises an error. -/
def fails (users : Users) (e : LoginEvent) : Prop :=
  ∃ row, users.get? e.key = some row ∧ e.call.update row e.now = none

end LoginEvent

def memoryRun (users : Users) (es : List LoginEvent) : Users := es.foldl LoginEvent.memory users

def postgresRun (users : Users) (es : List LoginEvent) : Users := es.foldl LoginEvent.postgres users

/-! ## The two stores agree -/

/-- The next failure can be counted: the count has room, or a lock keeps it from growing. -/
def User.HasRoom (u : User) : Prop := u.failedAttempts < maxInteger ∨ u.lockedUntil.isSome

theorem recordLoginFailure_eq {u : User} (h : u.HasRoom) (now : Instant) :
    Postgres.recordLoginFailure u now = some (u.recordLoginFailure now) := by
  unfold Postgres.recordLoginFailure Postgres.failedAttempts Postgres.lockedUntil
    User.recordLoginFailure User.isLocked lockHolds lockEnded nextAttempt
  cases hlock : u.lockedUntil with
  | none =>
    have hroom : u.failedAttempts < maxInteger := by
      rcases h with h | h
      · exact h
      · rw [hlock] at h
        cases h
    simp [hroom]
  | some t =>
    by_cases hnow : now.ms < t
    · have hnot : ¬ t ≤ now.ms := by omega
      simp [hnow, hnot, ← hlock]
    · have hended : t ≤ now.ms := by omega
      simp [hnow, hended]

theorem update_eq_apply {u : User} (h : u.HasRoom) (call : LoginCall) (now : Instant) :
    call.update u now = some (call.apply u now) := by
  cases call with
  | recordLoginFailure => exact recordLoginFailure_eq h now
  | recordLoginSuccess => rfl
  | unlockUser => rfl

theorem hasRoom_apply {u : User} (h : u.HasRoom) (call : LoginCall) (now : Instant) :
    (call.apply u now).HasRoom := by
  cases call with
  | recordLoginSuccess => exact .inl (Nat.zero_lt_succ _)
  | unlockUser => exact .inl (Nat.zero_lt_succ _)
  | recordLoginFailure =>
    change (u.recordLoginFailure now).HasRoom
    unfold User.recordLoginFailure
    split
    · exact h
    · by_cases hlock : u.lockedUntil.isSome
      · exact .inl (by simp [hlock, maxInteger])
      · by_cases hfive : 5 ≤ u.failedAttempts + 1
        · exact .inr (by simp [hlock, hfive])
        · exact .inl (by simp [hlock, maxInteger]; omega)

/-- Every user of the table has room. -/
def HaveRoom (users : Users) : Prop := ∀ key u, users.get? key = some u → u.HasRoom

theorem HaveRoom.memory {users : Users} (h : HaveRoom users) (e : LoginEvent) :
    HaveRoom (e.memory users) := by
  intro key u hu
  rw [LoginEvent.memory, Users.get?_modify] at hu
  split at hu
  · obtain ⟨old, hold, rfl⟩ := Option.map_eq_some_iff.mp hu
    exact hasRoom_apply (h key old hold) e.call e.now
  · exact h key u hu

theorem HaveRoom.memoryRun {users : Users} (h : HaveRoom users) (es : List LoginEvent) :
    HaveRoom (memoryRun users es) := by
  induction es generalizing users with
  | nil => exact h
  | cons e es ih => exact ih (h.memory e)

theorem HaveRoom.postgres_eq {users : Users} (h : HaveRoom users) (e : LoginEvent) :
    e.postgres users = e.memory users := by
  unfold LoginEvent.postgres LoginEvent.memory Users.modify
  cases hget : users.get? e.key with
  | none => rfl
  | some u =>
    dsimp only
    rw [update_eq_apply (h e.key u hget)]
    rfl

theorem HaveRoom.not_fails {users : Users} (h : HaveRoom users) (e : LoginEvent) :
    ¬ e.fails users := by
  rintro ⟨row, hrow, hnone⟩
  rw [update_eq_apply (h e.key row hrow)] at hnone
  cases hnone

theorem HaveRoom.postgresRun_eq {users : Users} (h : HaveRoom users) (es : List LoginEvent) :
    postgresRun users es = Store.memoryRun users es := by
  induction es generalizing users with
  | nil => rfl
  | cons e es ih =>
    change Store.postgresRun (e.postgres users) es = Store.memoryRun (e.memory users) es
    rw [h.postgres_eq e, ih (h.memory e)]

/-! ## The failures that are counted -/

/-- The times of the failures that are counted since the last success, unlock or end of a lock;
`none` while there was none of them. -/
def countCall (u : User) (times : Option (List Instant)) (now : Instant) :
    LoginCall → Option (List Instant)
  | .recordLoginFailure =>
    if u.isLocked now then times
    else if u.lockedUntil.isSome then some [now]
    else times.map (· ++ [now])
  | .recordLoginSuccess | .unlockUser => some []

/-- The same along a sequence of calls, for one user. -/
def counted (users : Users) (key : UserKey) (times : Option (List Instant)) :
    List LoginEvent → Option (List Instant)
  | [] => times
  | e :: es =>
    match users.get? key with
    | none => none
    | some u =>
      counted (e.memory users) key (if e.key = key then countCall u times e.now e.call else times) es

/-- At most five failures are counted, the user holds their number, and the fifth has locked the
account for 15 minutes. -/
structure User.Counts (u : User) (times : List Instant) : Prop where
  atMost : times.length ≤ 5
  failedAttempts : u.failedAttempts = times.length
  lockedUntil : u.lockedUntil = times[4]?.map fun fifth => fifth.ms + User.lockTime

theorem counts_nil {u : User} (hattempts : u.failedAttempts = 0) (hlock : u.lockedUntil = none) :
    u.Counts [] := ⟨Nat.zero_le 5, hattempts, hlock⟩

theorem User.Counts.failure {u : User} {times : List Instant} (h : u.Counts times)
    {now : Instant} (hlock : u.lockedUntil = none) :
    (u.recordLoginFailure now).Counts (times ++ [now]) := by
  have hfour : times.length ≤ 4 := by
    by_contra hmore
    have hfifth : 4 < times.length := by omega
    have hlocked := h.lockedUntil
    rw [hlock, List.getElem?_eq_getElem hfifth] at hlocked
    cases hlocked
  have hunlocked : u.isLocked now = false := by simp [User.isLocked, hlock]
  refine ⟨?_, ?_, ?_⟩
  · rw [List.length_append, List.length_singleton]
    omega
  · simp [User.recordLoginFailure, hunlocked, hlock, h.failedAttempts]
  · by_cases hlast : times.length = 4
    · simp [User.recordLoginFailure, hunlocked, hlock, h.failedAttempts, hlast]
    · have hless : times.length < 4 := by omega
      have hnone : (times ++ [now])[4]? = none := by
        rw [List.getElem?_eq_none_iff, List.length_append, List.length_singleton]
        omega
      have hfew : ¬ 5 ≤ times.length + 1 := by omega
      simp [User.recordLoginFailure, hunlocked, hlock, h.failedAttempts, hnone, hfew]

/-- The first failure after the end of a lock. -/
theorem recordLoginFailure_ended {u : User} {now : Instant} (hlock : u.lockedUntil.isSome)
    (hended : u.isLocked now = false) :
    (u.recordLoginFailure now).failedAttempts = 1 ∧
      (u.recordLoginFailure now).lockedUntil = none := by
  simp [User.recordLoginFailure, hended, hlock]

theorem counts_call {u : User} {times : Option (List Instant)}
    (h : ∀ ts, times = some ts → u.Counts ts) (now : Instant) (call : LoginCall) {ts : List Instant}
    (hts : countCall u times now call = some ts) : (call.apply u now).Counts ts := by
  cases call with
  | recordLoginSuccess =>
    cases hts
    exact counts_nil rfl rfl
  | unlockUser =>
    cases hts
    exact counts_nil rfl rfl
  | recordLoginFailure =>
    change (u.recordLoginFailure now).Counts ts
    simp only [countCall] at hts
    split at hts
    · rename_i hlocked
      rw [User.recordLoginFailure, if_pos hlocked]
      exact h ts hts
    · rename_i hunlocked
      rw [Bool.not_eq_true] at hunlocked
      split at hts
      · rename_i hlock
        cases hts
        obtain ⟨hone, hnone⟩ := recordLoginFailure_ended hlock hunlocked
        exact ⟨by simp, hone, hnone⟩
      · rename_i hlock
        obtain ⟨old, hold, rfl⟩ := Option.map_eq_some_iff.mp hts
        exact (h old hold).failure (by simpa using hlock)

theorem counts_run {users : Users} {key : UserKey} {times : Option (List Instant)}
    (h : ∀ u ts, users.get? key = some u → times = some ts → u.Counts ts) (es : List LoginEvent)
    {u : User} {ts : List Instant} (hu : (memoryRun users es).get? key = some u)
    (hts : counted users key times es = some ts) : u.Counts ts := by
  induction es generalizing users times with
  | nil => exact h u ts hu hts
  | cons e es ih =>
    unfold counted at hts
    split at hts
    · cases hts
    · rename_i old hold
      refine ih ?_ hu hts
      intro u' ts' hu' hts'
      rw [LoginEvent.memory, Users.get?_modify, hold] at hu'
      by_cases hkey : key = e.key
      · subst hkey
        rw [if_pos rfl] at hu' hts'
        cases hu'
        exact counts_call (fun ts hts => h old ts hold hts) e.now e.call hts'
      · rw [if_neg hkey] at hu'
        rw [if_neg (Ne.symm hkey)] at hts'
        cases hu'
        exact h old ts' hold hts'

/-- The table and the calls of the two stores are the same after every sequence of calls, no statement
raises an error, and for each user: the failures that are counted since a success, an unlock or the
end of a lock are at most five, and the fifth has locked the account for 15 minutes; a failure while
the account is locked changes nothing; and the first one after the end of a lock counts as 1. -/
theorem lockouts_agree (users : Users) (h : HaveRoom users) (es : List LoginEvent) :
    postgresRun users es = memoryRun users es ∧
    (∀ e : LoginEvent, ¬ e.fails (postgresRun users es)) ∧
    ∀ key u, (memoryRun users es).get? key = some u →
      (∀ times, counted users key none es = some times → u.Counts times) ∧
      (∀ now, u.isLocked now = true → u.recordLoginFailure now = u) ∧
      ∀ now t, u.lockedUntil = some t → t ≤ now.ms →
        (u.recordLoginFailure now).failedAttempts = 1 ∧
          (u.recordLoginFailure now).lockedUntil = none := by
  have hsame := h.postgresRun_eq es
  refine ⟨hsame, ?_, ?_⟩
  · intro e
    rw [hsame]
    exact (h.memoryRun es).not_fails e
  · intro key u hu
    refine ⟨?_, ?_, ?_⟩
    · intro times htimes
      refine counts_run ?_ es hu htimes
      intro u' ts _ hts
      cases hts
    · intro now hlocked
      rw [User.recordLoginFailure, if_pos hlocked]
    · intro now t hlock hended
      refine recordLoginFailure_ended (by rw [hlock]; rfl) ?_
      simpa [User.isLocked, hlock] using hended

/-! ### A count without room -/

def oneOClock : Instant := ⟨46800000, by decide⟩

def userWith (failedAttempts : Nat) : User :=
  { realm := "master", id := "1", username := "ada", email := "ada@example.test"
    failedAttempts := failedAttempts }

def onlyUser (u : User) : Users := OrderedMap.empty.set ("master", "1") u

def eventOf (call : LoginCall) : LoginEvent := ⟨oneOClock, ("master", "1"), call⟩

/-- Where the column `failed_attempts` has no room, the `UPDATE` raises an error, and the account is
locked in one store only. -/
theorem lockouts_apart : ∃ u row,
    (memoryRun (onlyUser (userWith maxInteger)) [eventOf .recordLoginFailure]).get?
      ("master", "1") = some u ∧
    (postgresRun (onlyUser (userWith maxInteger)) [eventOf .recordLoginFailure]).get?
      ("master", "1") = some row ∧
    u.failedAttempts = 2147483648 ∧ u.lockedUntil = some (oneOClock.ms + User.lockTime) ∧
    row.failedAttempts = 2147483647 ∧ row.lockedUntil = none :=
  ⟨_, _, rfl, rfl, rfl, rfl, rfl, rfl⟩

theorem haveRoom_onlyUser {u : User} (h : u.HasRoom) : HaveRoom (onlyUser u) := by
  intro key v hv
  rw [onlyUser, OrderedMap.get?_set] at hv
  split at hv
  · cases hv
    exact h
  · cases hv

/-- A success and then six failures. -/
def sixFailures : List LoginEvent :=
  eventOf .recordLoginSuccess :: List.replicate 6 (eventOf .recordLoginFailure)

theorem lockouts_agree_sixFailures : ∃ u,
    (postgresRun (onlyUser (userWith 3)) sixFailures).get? ("master", "1") = some u ∧
    counted (onlyUser (userWith 3)) ("master", "1") none sixFailures =
      some (List.replicate 5 oneOClock) ∧
    u.Counts (List.replicate 5 oneOClock) := by
  have hroom : HaveRoom (onlyUser (userWith 3)) :=
    haveRoom_onlyUser (.inl (by decide))
  obtain ⟨hsame, -, husers⟩ := lockouts_agree _ hroom sixFailures
  refine ⟨_, by rw [hsame]; rfl, rfl, ?_⟩
  exact (husers ("master", "1") _ rfl).1 _ rfl

end AuthMe.Store

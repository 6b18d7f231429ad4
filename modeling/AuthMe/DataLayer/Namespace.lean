import AuthMe.DataLayer.LoginNames
import AuthMe.Transition.Run

/-!
# Login names in PostgreSQL

The trigger `users_enforce_login_namespace` (`src/migrations/001_initial.sql`) keeps the names and
the addresses of a realm apart. It locks the realm, looks for a row with one of the texts and lets
the row through if there is none; the lock lasts until the transaction ends.

The transactions run at `READ COMMITTED`: each statement of the trigger reads the committed rows of
its own moment and the rows of its own transaction, and between two statements anything can happen
in the others. A statement that meets a row of another transaction waits. What the unique indexes
add is left out, so that the trigger alone has to do it.
-/

namespace AuthMe.DataLayer.Namespace

open Store Transition

/-- The functions of PostgreSQL that the trigger calls. -/
structure Functions where
  lower : String → String
  hashtextextended : String → Int

/-- The two columns of `users` that the trigger is about. -/
structure Names where
  username : String
  email : String
  deriving DecidableEq

def Names.logins (f : Functions) (n : Names) : List String := [f.lower n.username, f.lower n.email]

/-- The row that a statement is about to write, `NEW`. -/
structure Pending where
  key : UserKey
  new : Names
  insert : Bool
  deriving DecidableEq

inductive Stage
  | ready
  /-- The trigger has been called. -/
  | fired (w : Pending)
  | locked (w : Pending)
  | checked (w : Pending)
  /-- A statement has thrown; only the end of the transaction is left. -/
  | failed
  deriving DecidableEq

/-- A transaction, with the rows that it has written and the advisory locks that it has. -/
structure Tx where
  own : OrderedMap UserKey Names
  locks : List Int
  stage : Stage

def Tx.fresh : Tx := ⟨.empty, [], .ready⟩

/-- The committed rows and the open transactions. -/
structure State where
  users : OrderedMap UserKey Names
  txs : OrderedMap Nat Tx

def State.empty : State := ⟨.empty, .empty⟩

inductive Event
  | begin (t : Nat)
  | insert (t : Nat) (key : UserKey) (new : Names)
  | update (t : Nat) (key : UserKey) (username email : Option String)
  /-- `pg_advisory_xact_lock`. -/
  | lock (t : Nat)
  /-- `IF EXISTS`. -/
  | check (t : Nat)
  | write (t : Nat)
  | commit (t : Nat)
  | rollback (t : Nat)
  deriving DecidableEq

inductive Output
  | done
  | notUnique
  deriving DecidableEq

/-- What a statement of the transaction reads. -/
def Tx.view (users : OrderedMap UserKey Names) (tx : Tx) : OrderedMap UserKey Names :=
  users.spread tx.own

/-- The transaction has the lock of the row. -/
def Tx.locksRow (tx : Tx) (key : UserKey) : Bool :=
  (tx.own.get? key).isSome || match tx.stage with
    | .fired w | .locked w | .checked w => !w.insert && w.key = key
    | _ => false

/-- Another row of the realm has one of the texts. -/
def conflicts (f : Functions) (users : OrderedMap UserKey Names) (w : Pending) : Bool :=
  users.entries.any fun (key, n) => key.1 = w.key.1 && key.2 ≠ w.key.2 &&
    ((w.new.logins f).contains (f.lower n.username) || (w.new.logins f).contains (f.lower n.email))

namespace State

/-- Another open transaction meets the condition. -/
def other (s : State) (t : Nat) (p : Tx → Bool) : Bool :=
  s.txs.entries.any fun (t', tx) => t' ≠ t && p tx

def put (s : State) (t : Nat) (tx : Tx) : State := { s with txs := s.txs.set t tx }

end State

/-- What an event of an open transaction does. -/
def Tx.step (f : Functions) (s : State) (t : Nat) (tx : Tx) : Event → Option (State × Output)
  | .begin _ => none
  | .insert _ key new =>
    if tx.stage = .ready then some (s.put t { tx with stage := .fired ⟨key, new, true⟩ }, .done)
    else none
  | .update _ key username email =>
    if tx.stage = .ready then
      match (tx.view s.users).get? key with
      | none => some (s, .done)
      | some old =>
        if s.other t (·.locksRow key) then none
        else
          let new := ⟨username.getD old.username, email.getD old.email⟩
          some (s.put t { tx with stage := .fired ⟨key, new, false⟩ }, .done)
    else none
  | .lock _ =>
    match tx.stage with
    | .fired w =>
      let hash := f.hashtextextended w.key.1
      if s.other t (·.locks.contains hash) then none
      else some (s.put t { tx with locks := hash :: tx.locks, stage := .locked w }, .done)
    | _ => none
  | .check _ =>
    match tx.stage with
    | .locked w =>
      if conflicts f (tx.view s.users) w then some (s.put t { tx with stage := .failed }, .notUnique)
      else some (s.put t { tx with stage := .checked w }, .done)
    | _ => none
  | .write _ =>
    match tx.stage with
    | .checked w =>
      -- the primary key
      if w.insert && ((tx.view s.users).get? w.key).isSome then
        some (s.put t { tx with stage := .failed }, .notUnique)
      else if w.insert && s.other t (·.locksRow w.key) then none
      else some (s.put t { tx with own := tx.own.set w.key w.new, stage := .ready }, .done)
    | _ => none
  | .commit _ =>
    match tx.stage with
    | .ready => some (⟨tx.view s.users, s.txs.erase t⟩, .done)
    | .failed => some ({ s with txs := s.txs.erase t }, .done)
    | _ => none
  | .rollback _ => some ({ s with txs := s.txs.erase t }, .done)

def Event.tx : Event → Nat
  | .begin t | .insert t _ _ | .update t _ _ _ | .lock t | .check t | .write t | .commit t
  | .rollback t => t

def step (f : Functions) (s : State) (e : Event) : Option (State × Output) :=
  match s.txs.get? e.tx with
  | none => if e = .begin e.tx then some (s.put e.tx .fresh, .done) else none
  | some tx => tx.step f s e.tx e

/-! ## The invariant -/

variable {f : Functions} {users : OrderedMap UserKey Names} {s s' : State} {t : Nat} {tx tx' : Tx}

/-- No text leads to two rows of a realm. -/
def Apart (f : Functions) (users : OrderedMap UserKey Names) : Prop :=
  ∀ k n k' n', users.get? k = some n → users.get? k' = some n' → k.1 = k'.1 → k ≠ k' →
    ∀ login ∈ n.logins f, login ∉ n'.logins f

/-- No other row of the realm has a text of the row to write. -/
def Free (f : Functions) (users : OrderedMap UserKey Names) (w : Pending) : Prop :=
  ∀ k n, users.get? k = some n → k.1 = w.key.1 → k ≠ w.key →
    ∀ login ∈ n.logins f, login ∉ w.new.logins f

/-- What holds of an open transaction: it has locked the realms of the rows that it has written and
of the row that it writes, its rows are apart, and the check has not become wrong. -/
structure Tx.Ok (f : Functions) (users : OrderedMap UserKey Names) (tx : Tx) : Prop where
  held : ∀ k n, tx.own.get? k = some n → f.hashtextextended k.1 ∈ tx.locks
  apart : Apart f (tx.view users)
  locked : ∀ w, tx.stage = .locked w → f.hashtextextended w.key.1 ∈ tx.locks
  checked : ∀ w, tx.stage = .checked w → f.hashtextextended w.key.1 ∈ tx.locks
  free : ∀ w, tx.stage = .checked w → Free f (tx.view users) w

structure Inv (f : Functions) (s : State) : Prop where
  apart : Apart f s.users
  txs : ∀ t tx, s.txs.get? t = some tx → tx.Ok f s.users
  /-- An advisory lock has one owner. -/
  owner : ∀ t tx t' tx', s.txs.get? t = some tx → s.txs.get? t' = some tx' →
    ∀ hash ∈ tx.locks, hash ∈ tx'.locks → t = t'

/-! ## Rows that are apart -/

theorem Free.insert {w : Pending} (h : Free f users w) (hapart : Apart f users) :
    Apart f (users.set w.key w.new) := by
  intro k n k' n' hk hk' hrealm hne login hlogin
  rw [OrderedMap.get?_set] at hk hk'
  split at hk <;> split at hk'
  · rename_i hw hw'
    exact absurd (hw.trans hw'.symm) hne
  · rename_i hw hw'
    cases hk
    subst hw
    exact fun hmem => h k' n' hk' hrealm.symm (Ne.symm hne) login hmem hlogin
  · rename_i hw hw'
    cases hk'
    subst hw'
    exact h k n hk hrealm hne login hlogin
  · exact hapart k n k' n' hk hk' hrealm hne login hlogin

/-- Rows are apart if those of each realm come from rows that are apart. -/
theorem Apart.of_realms {m m' : OrderedMap UserKey Names} (h : Apart f m) (h' : Apart f m')
    (hrealms : ∀ realm, (∀ k : UserKey, k.1 = realm → users.get? k = m.get? k) ∨
      ∀ k : UserKey, k.1 = realm → users.get? k = m'.get? k) : Apart f users := by
  intro k n k' n' hk hk' hrealm
  rcases hrealms k'.1 with hm | hm
  · rw [hm k hrealm] at hk
    rw [hm k' rfl] at hk'
    exact h k n k' n' hk hk' hrealm
  · rw [hm k hrealm] at hk
    rw [hm k' rfl] at hk'
    exact h' k n k' n' hk hk' hrealm

theorem free_of_conflicts {w : Pending} (h : conflicts f users w = false) : Free f users w := by
  intro k n hk hrealm hne login hlogin hmem
  have hid : k.2 ≠ w.key.2 := fun hid => hne (Prod.ext hrealm hid)
  have htest := List.any_eq_false.mp h (k, n) (OrderedMap.mem_entries_iff.mpr hk)
  simp only [hrealm, decide_true, Bool.true_and, hid, ne_eq, not_false_eq_true,
    Bool.or_eq_true, List.contains_iff_mem, not_or] at htest
  simp only [Names.logins, List.mem_cons, List.not_mem_nil, or_false] at hlogin
  rcases hlogin with rfl | rfl
  · exact htest.1 hmem
  · exact htest.2 hmem

theorem not_other {p : Tx → Bool} (h : s.other t p = false) {t' : Nat}
    (htx : s.txs.get? t' = some tx) (hne : t' ≠ t) : p tx = false := by
  have htest := List.any_eq_false.mp h (t', tx) (OrderedMap.mem_entries_iff.mpr htx)
  simpa [hne] using htest

/-! ## Transactions side by side -/

theorem Tx.get?_view (k : UserKey) : (tx.view users).get? k = (tx.own.get? k).or (users.get? k) :=
  OrderedMap.get?_spread ..

/-- A transaction that has not locked the realm has no rows of it. -/
theorem Tx.Ok.own_eq_none (h : tx.Ok f users) {k : UserKey}
    (hlock : f.hashtextextended k.1 ∉ tx.locks) : tx.own.get? k = none := by
  cases hown : tx.own.get? k with
  | none => rfl
  | some n => exact absurd (h.held k n hown) hlock

/-- In a realm that a transaction has locked, the commit of another one changes nothing for it. -/
theorem Tx.Ok.view_commit (h : tx.Ok f users) (hdisjoint : ∀ hash ∈ tx.locks, hash ∉ tx'.locks)
    {k : UserKey} (hlock : f.hashtextextended k.1 ∈ tx'.locks) :
    (tx'.view (tx.view users)).get? k = (tx'.view users).get? k := by
  have hnone := h.own_eq_none fun hmem => hdisjoint _ hmem hlock
  rw [Tx.get?_view, Tx.get?_view, Tx.get?_view, hnone, Option.none_or]

theorem Tx.Ok.commit (h : tx.Ok f users) (h' : tx'.Ok f users)
    (hdisjoint : ∀ hash ∈ tx.locks, hash ∉ tx'.locks) : tx'.Ok f (tx.view users) := by
  constructor
  case held => exact h'.held
  case locked => exact h'.locked
  case checked => exact h'.checked
  case apart =>
    refine h'.apart.of_realms h.apart fun realm => ?_
    by_cases hlock : f.hashtextextended realm ∈ tx'.locks
    · exact .inl fun k hk => h.view_commit hdisjoint (hk ▸ hlock)
    · refine .inr fun k hk => ?_
      rw [Tx.get?_view, h'.own_eq_none (hk ▸ hlock), Option.none_or]
  case free =>
    intro w hw k n hk hrealm
    rw [h.view_commit hdisjoint (hrealm ▸ h'.checked w hw)] at hk
    exact h'.free w hw k n hk hrealm

/-! ## Steps -/

/-- No other open transaction has one of the locks. -/
def Owns (s : State) (t : Nat) (tx : Tx) : Prop :=
  ∀ t' tx', s.txs.get? t' = some tx' → t' ≠ t → ∀ hash ∈ tx.locks, hash ∉ tx'.locks

theorem Inv.owns (h : Inv f s) (htx : s.txs.get? t = some tx) : Owns s t tx :=
  fun t' tx' htx' hne hash hmem hmem' => hne (h.owner t' tx' t tx htx' htx hash hmem' hmem)

theorem Inv.put (h : Inv f s) (hok : tx.Ok f s.users) (howns : Owns s t tx) :
    Inv f (s.put t tx) := by
  constructor
  case apart => exact h.apart
  case txs =>
    intro t' tx' htx'
    rw [State.put, OrderedMap.get?_set] at htx'
    split at htx'
    · cases htx'
      exact hok
    · exact h.txs t' tx' htx'
  case owner =>
    intro t₁ tx₁ t₂ tx₂ h₁ h₂ hash hmem₁ hmem₂
    rw [State.put, OrderedMap.get?_set] at h₁ h₂
    split at h₁ <;> split at h₂
    · rename_i ht₁ ht₂
      exact ht₁.trans ht₂.symm
    · rename_i ht₁ ht₂
      cases h₁
      exact absurd hmem₂ (howns t₂ tx₂ h₂ ht₂ hash hmem₁)
    · rename_i ht₁ ht₂
      cases h₂
      exact absurd hmem₁ (howns t₁ tx₁ h₁ ht₁ hash hmem₂)
    · exact h.owner t₁ tx₁ t₂ tx₂ h₁ h₂ hash hmem₁ hmem₂

/-- A transaction ends, with the rows that it leaves. -/
theorem Inv.finish (h : Inv f s) (hapart : Apart f users)
    (hok : ∀ t' tx', s.txs.get? t' = some tx' → t' ≠ t → tx'.Ok f users) :
    Inv f ⟨users, s.txs.erase t⟩ := by
  have hget : ∀ t' tx', (s.txs.erase t).get? t' = some tx' →
      t' ≠ t ∧ s.txs.get? t' = some tx' := by
    intro t' tx' htx'
    rw [OrderedMap.get?_erase] at htx'
    split at htx'
    · cases htx'
    · rename_i hne
      exact ⟨hne, htx'⟩
  constructor
  case apart => exact hapart
  case txs => exact fun t' tx' htx' => hok t' tx' (hget t' tx' htx').2 (hget t' tx' htx').1
  case owner =>
    intro t₁ tx₁ t₂ tx₂ h₁ h₂
    exact h.owner t₁ tx₁ t₂ tx₂ (hget t₁ tx₁ h₁).2 (hget t₂ tx₂ h₂).2

theorem Inv.rollback (h : Inv f s) : Inv f { s with txs := s.txs.erase t } :=
  h.finish h.apart fun t' tx' htx' _ => h.txs t' tx' htx'

theorem Inv.commit (h : Inv f s) (htx : s.txs.get? t = some tx) :
    Inv f ⟨tx.view s.users, s.txs.erase t⟩ := by
  refine h.finish (h.txs t tx htx).apart fun t' tx' htx' hne => ?_
  exact (h.txs t tx htx).commit (h.txs t' tx' htx') (h.owns htx t' tx' htx' hne)

/-- The stages at which the transaction owes nothing for the row. -/
theorem Tx.Ok.stage (h : tx.Ok f users) {stage : Stage} (hlocked : ∀ w, stage ≠ .locked w)
    (hchecked : ∀ w, stage ≠ .checked w) : ({ tx with stage := stage } : Tx).Ok f users :=
  ⟨h.held, h.apart, fun w hw => absurd hw (hlocked w), fun w hw => absurd hw (hchecked w),
    fun w hw => absurd hw (hchecked w)⟩

theorem Tx.Ok.lock (h : tx.Ok f users) (w : Pending) :
    ({ tx with locks := f.hashtextextended w.key.1 :: tx.locks, stage := .locked w } : Tx).Ok f
      users := by
  constructor
  case held => exact fun k n hk => .tail _ (h.held k n hk)
  case apart => exact h.apart
  case locked =>
    rintro _ ⟨⟩
    exact .head _
  all_goals rintro _ ⟨⟩

theorem Tx.Ok.check (h : tx.Ok f users) {w : Pending} (hstage : tx.stage = .locked w)
    (hfree : conflicts f (tx.view users) w = false) :
    ({ tx with stage := .checked w } : Tx).Ok f users := by
  constructor
  case held => exact h.held
  case apart => exact h.apart
  case locked => rintro _ ⟨⟩
  case checked =>
    rintro _ ⟨⟩
    exact h.locked w hstage
  case free =>
    rintro _ ⟨⟩
    exact free_of_conflicts hfree

theorem Tx.Ok.write (h : tx.Ok f users) {w : Pending} (hstage : tx.stage = .checked w) :
    ({ tx with own := tx.own.set w.key w.new, stage := .ready } : Tx).Ok f users := by
  constructor
  case held =>
    intro k n hk
    rw [OrderedMap.get?_set] at hk
    split at hk
    · rename_i hkey
      exact hkey ▸ h.checked w hstage
    · exact h.held k n hk
  case apart =>
    have hset := (h.free w hstage).insert h.apart
    intro k n k' n' hk hk'
    have hview : ∀ k, (({ tx with own := tx.own.set w.key w.new, stage := .ready } : Tx).view
        users).get? k = ((tx.view users).set w.key w.new).get? k := by
      intro k
      rw [OrderedMap.get?_set, Tx.get?_view, Tx.get?_view, OrderedMap.get?_set]
      split <;> simp
    rw [hview] at hk hk'
    exact hset k n k' n' hk hk'
  all_goals rintro _ ⟨⟩

theorem Tx.fresh_ok (h : Apart f users) : Tx.fresh.Ok f users := by
  constructor
  case held => rintro _ _ ⟨⟩
  case apart =>
    intro k n k' n' hk hk'
    rw [Tx.get?_view] at hk hk'
    exact h k n k' n' hk hk'
  all_goals rintro _ ⟨⟩

theorem Tx.step_inv {e : Event} {o : Output} (h : Inv f s) (htx : s.txs.get? t = some tx)
    (hstep : tx.step f s t e = some (s', o)) : Inv f s' := by
  have hok := h.txs t tx htx
  have howns := h.owns htx
  cases e with
  | begin => cases hstep
  | insert _ key new =>
    simp only [Tx.step] at hstep
    split at hstep
    · cases hstep
      exact h.put (hok.stage (by simp) (by simp)) howns
    · cases hstep
  | update _ key username email =>
    simp only [Tx.step] at hstep
    split at hstep
    · split at hstep
      · cases hstep
        exact h
      split at hstep
      · cases hstep
      cases hstep
      exact h.put (hok.stage (by simp) (by simp)) howns
    · cases hstep
  | lock =>
    simp only [Tx.step] at hstep
    split at hstep
    · rename_i w hstage
      split at hstep
      · cases hstep
      rename_i hfree
      cases hstep
      refine h.put (hok.lock w) fun t' tx' htx' hne hash hmem => ?_
      rcases List.mem_cons.mp hmem with rfl | hmem
      · have hnot := not_other (p := (·.locks.contains _)) (eq_false_of_ne_true hfree) htx' hne
        simpa using hnot
      · exact howns t' tx' htx' hne hash hmem
    · cases hstep
  | check =>
    simp only [Tx.step] at hstep
    split at hstep
    · rename_i w hstage
      split at hstep
      · cases hstep
        exact h.put (hok.stage (by simp) (by simp)) howns
      · rename_i hfree
        cases hstep
        exact h.put (hok.check hstage (by simpa using hfree)) howns
    · cases hstep
  | write =>
    simp only [Tx.step] at hstep
    split at hstep
    · rename_i w hstage
      split at hstep
      · cases hstep
        exact h.put (hok.stage (by simp) (by simp)) howns
      split at hstep
      · cases hstep
      cases hstep
      exact h.put (hok.write hstage) howns
    · cases hstep
  | commit =>
    simp only [Tx.step] at hstep
    split at hstep
    · cases hstep
      exact h.commit htx
    · cases hstep
      exact h.rollback
    · cases hstep
  | rollback =>
    cases hstep
    exact h.rollback

theorem step_inv {e : Event} {o : Output} (h : Inv f s) (hstep : step f s e = some (s', o)) :
    Inv f s' := by
  rw [step] at hstep
  split at hstep
  · rename_i hnone
    split at hstep
    · cases hstep
      refine h.put (Tx.fresh_ok h.apart) fun t' tx' _ _ hash hmem => ?_
      cases hmem
    · cases hstep
  · rename_i tx htx
    exact Tx.step_inv h htx hstep

theorem empty_inv : Inv f .empty := by
  constructor
  case apart => rintro _ _ _ _ ⟨⟩
  case txs => rintro _ _ ⟨⟩
  case owner => rintro _ _ _ _ ⟨⟩

/-- In every run the committed rows are apart. -/
theorem committed_apart {tr : List (Event × Output)} (h : Run (step f) Always .empty tr s) :
    Apart f s.users :=
  (h.invariant (fun _ _ _ _ hinv _ hstep => step_inv hinv hstep) empty_inv).apart

/-! ## Both stores -/

/-- No text leads to two users of a realm, in either store. -/
theorem one_login_namespace (cfg : Config) (f : Functions) :
    (∀ calls : List (Instant × Tables.Call), (∀ c ∈ calls, c.2.names = true) →
      Tables.LoginLaw cfg (Tables.State.calls cfg .empty calls)) ∧
    ∀ tr s, Run (step f) Always .empty tr s → Apart f s.users :=
  ⟨Tables.loginLaw_of_calls, fun _ _ => committed_apart⟩

def plainConfig : Config := ⟨id⟩

def plainFunctions : Functions := ⟨id, fun _ => 0⟩

def eightOClock : Instant := ⟨28800000, by decide⟩

def ada : Tables.Account :=
  { realm := "acme", id := "1", username := "ada", email := "ada@acme", createdAt := 0, updatedAt := 0 }

/-- Another user with the name of Ada as its address is refused by the store in memory, and by the
trigger once the transaction with Ada has ended. -/
theorem one_login_namespace_of_ada : ∃ tr s,
    Tables.LoginLaw plainConfig (Tables.State.calls plainConfig .empty
      [(eightOClock, .createUser ada),
        (eightOClock, .createUser { ada with id := "2", username := "bo", email := "ada" })]) ∧
    Run (step plainFunctions) Always .empty tr s ∧ Apart plainFunctions s.users ∧
    tr.getLast? = some (.rollback 2, .done) ∧ (.check 2, .notUnique) ∈ tr := by
  have hrun : exec (step plainFunctions) Always .empty
      [.begin 1, .begin 2, .insert 1 ("acme", "1") ⟨"ada", "ada@acme"⟩,
        .insert 2 ("acme", "2") ⟨"bo", "ada"⟩, .lock 1, .check 1, .write 1, .commit 1,
        .lock 2, .check 2, .rollback 2] = some (_, _) := rfl
  have hrun := Run.of_exec hrun
  have hlaw := one_login_namespace plainConfig plainFunctions
  exact ⟨_, _, hlaw.1 _ (by decide), hrun, hlaw.2 _ _ hrun, rfl, by decide⟩

end AuthMe.DataLayer.Namespace

import AuthMe.Passwords.Requests

/-!
# What the requests on a password do

`Allowed` says what a request has done when it performs an operation: a transaction that is committed
has written the hash of the password that the request has hashed, or, if it has hashed none, no hash
but the one that it has read under the lock, a rehash is one of the password that the login has
verified, and a request does one of the two at most, once. It holds whatever the answers are
(`passwords_spec`).
-/

namespace AuthMe.Passwords

open Service Scim

abbrev Log := List (Entry operations State)

/-! ## Facts that a log shows -/

/-- The transaction is one of the call. -/
def Owns (log : Log) (t : Nat) : Prop := Answered log .begin (some t)

def Statement.passwordHash? : Statement → Option String
  | .update w => w.passwordHash?
  | _ => none

/-- The hash that a statement of the transaction has written, if the entry is one. -/
def writtenBy (t : Nat) : Entry operations State → Option String
  | ⟨.query t' statement, some _, _, _⟩ => if t' = t then statement.passwordHash? else none
  | _ => none

/-- The hash that the transaction has written last. -/
def written (t : Nat) (log : Log) : Option String := log.findSome? (writtenBy t)

/-- The password that is hashed, if the entry is that. -/
def hashedBy : Entry operations State → Option String
  | ⟨.hashPassword password, _, _, _⟩ => some password
  | _ => none

/-- The password that the call has hashed last. -/
def hashed (log : Log) : Option String := log.findSome? hashedBy

/-- The call has this hash of its password, or no password. -/
def Sets (log : Log) : Option String → Prop
  | none => hashed log = none
  | some h => ∃ password, hashed log = some password ∧ Answered log (.hashPassword password) (some h)

/-- The transaction has written what it is there for. -/
inductive Complete (log : Log) (t : Nat) : Prop
  | changed {h : String} (hsets : Sets log (some h)) (hwritten : written t log = some h)
  | untouched (hsets : Sets log none) (hwritten : written t log = none)
  | copied {row : UserRow} (hsets : Sets log none) (hread : Answered log (.query t .lock) (some row))
    (hwritten : written t log = some row.passwordHash)

/-- The operation stores a hash for good. -/
def Op.stores : Op → Bool
  | .rehashPasswordIfCurrent .. | .commit _ => true
  | _ => false

/-- The call has stored nothing yet. -/
def Unspent (log : Log) : Prop := ∀ x ∈ log, x.op.stores = false

/-- No transaction has done anything yet. -/
structure Fresh (log : Log) : Prop where
  written : ∀ t, written t log = none
  locked : ∀ t row, ¬ Answered log (.query t .lock) (some row)
  unspent : Unspent log

/-- What the log of a call shows when it performs an operation. -/
def Allowed (log : Log) : Op → Prop
  | .begin => Fresh log
  | .query t .lock => Owns log t ∧ written t log = none
  | .query t _ => Owns log t
  | .commit t => Owns log t ∧ Complete log t ∧ Unspent log
  | .rehashPasswordIfCurrent expectedHash passwordHash => (∃ password,
    Answered log (.verifyPassword expectedHash password) true ∧
      Answered log (.hashPassword password) (some passwordHash)) ∧ Unspent log
  | _ => True

section Logs

variable {log : Log} {t : Nat} {x : Entry operations State} {row : UserRow} {h : String}

theorem Owns.there (howns : Owns log t) : Owns (x :: log) t := Answered.there howns

theorem written_cons (t : Nat) (x : Entry operations State) (log : Log) :
    written t (x :: log) = (writtenBy t x).or (written t log) := by
  rw [written, List.findSome?_cons]
  cases writtenBy t x <;> rfl

theorem hashed_cons (x : Entry operations State) (log : Log) :
    hashed (x :: log) = (hashedBy x).or (hashed log) := by
  rw [hashed, List.findSome?_cons]
  cases hashedBy x <;> rfl

theorem unspent_nil : Unspent [] := by
  intro x hx
  cases hx

theorem Unspent.cons (hlog : Unspent log) (hx : x.op.stores = false) : Unspent (x :: log) :=
  List.forall_mem_cons.mpr ⟨hx, hlog⟩

/-- An entry that is nothing of the kind leaves a fresh log fresh. -/
theorem Fresh.cons (hlog : Fresh log) (hx : ∀ t, writtenBy t x = none)
    (hlock : ∀ t, x.op ≠ .query t .lock) (hstores : x.op.stores = false) : Fresh (x :: log) := by
  refine ⟨?_, ?_, hlog.unspent.cons hstores⟩
  · intro t
    rw [written_cons, hx, hlog.written]
    rfl
  · rintro t row ⟨before, after, hmem⟩
    rcases List.mem_cons.mp hmem with rfl | hmem
    · exact hlock t rfl
    · exact hlog.locked t row ⟨before, after, hmem⟩

theorem Sets.cons {hash : Option String} (hsets : Sets log hash) (hx : hashedBy x = none) :
    Sets (x :: log) hash := by
  cases hash with
  | none =>
    change hashed (x :: log) = none
    rw [hashed_cons, hx]
    exact hsets
  | some h =>
    obtain ⟨password, hpassword, hanswer⟩ := hsets
    refine ⟨password, ?_, hanswer.there⟩
    rw [hashed_cons, hx]
    exact hpassword

theorem sets_hashPassword {password : String} {before after : State} :
    Sets (⟨.hashPassword password, some h, before, after⟩ :: log) (some h) := by
  refine ⟨password, ?_, .here⟩
  rw [hashed_cons]
  rfl

end Logs

/-! ## Transactions -/

section Programs

variable {R : Entry operations State → Prop} {log : Log} {t : Nat}

/-- The rule for one operation. -/
theorem obeys_perform {α : Type} {P : Log → Op → Prop} {Q : Log → α → Prop} {op : Op}
    {f : op.Res → Route α} : (perform op >>= f).Obeys R P Q log ↔ P log op ∧
      ∀ (res : op.Res) before after, R ⟨op, res, before, after⟩ →
        (f res).Obeys R P Q (⟨op, res, before, after⟩ :: log) := Iff.rfl

/-- The hash that the statements set last. -/
def lastHash (statements : List Statement) : Option String :=
  statements.reverse.findSome? Statement.passwordHash?

theorem lastHash_cons (statement : Statement) (rest : List Statement) :
    lastHash (statement :: rest) = (lastHash rest).or statement.passwordHash? := by
  rw [lastHash, List.reverse_cons, List.findSome?_append, List.findSome?_singleton, lastHash]

/-- What a log shows after statements of a transaction. -/
structure After (t : Nat) (log : Log) (hash : Option String) (log' : Log) : Prop where
  answered : ∀ op res, Answered log op res → Answered log' op res
  hashed : hashed log' = hashed log
  written : written t log' = hash.or (written t log)
  unspent : Unspent log → Unspent log'

theorem queries_obeys {statements : List Statement} (howns : Owns log t)
    (hno : .lock ∉ statements) :
    (queries t statements).Obeys R Allowed
      (fun log' ok => ok = true → After t log (lastHash statements) log') log := by
  induction statements generalizing log with
  | nil => exact fun _ => ⟨fun _ _ h => h, rfl, rfl, fun h => h⟩
  | cons statement rest ih =>
    rw [List.mem_cons, not_or] at hno
    have hallowed : Allowed log (.query t statement) := by
      cases statement with
      | lock => exact absurd rfl hno.1
      | _ => exact howns
    refine ⟨hallowed, fun result before after _ => ?_⟩
    cases result with
    | none => exact fun hok => by cases hok
    | some row =>
      refine (ih howns.there hno.2).mono (fun _ _ h => h) ?_
      intro log' ok hrest hok
      obtain ⟨hanswered, hhashed, hwritten, hunspent⟩ := hrest hok
      refine ⟨fun op res h => hanswered op res h.there, ?_, ?_, fun h => hunspent (h.cons rfl)⟩
      · rw [hhashed, hashed_cons]
        rfl
      · rw [hwritten, written_cons, lastHash_cons, Option.or_assoc]
        simp [writtenBy]

/-- The statements after the one that locks the row. -/
theorem queries_lock_obeys {statements : List Statement} (howns : Owns log t)
    (hnone : written t log = none) (hno : .lock ∉ statements) :
    (queries t (.lock :: statements)).Obeys R Allowed
      (fun log' ok => ok = true → After t log (lastHash statements) log') log := by
  refine ⟨⟨howns, hnone⟩, fun result before after _ => ?_⟩
  cases result with
  | none => exact fun hok => by cases hok
  | some row =>
    refine (queries_obeys howns.there hno).mono (fun _ _ h => h) ?_
    intro log' ok hrest hok
    obtain ⟨hanswered, hhashed, hwritten, hunspent⟩ := hrest hok
    refine ⟨fun op res h => hanswered op res h.there, ?_, ?_, fun h => hunspent (h.cons rfl)⟩
    · rw [hhashed, hashed_cons]
      rfl
    · rw [hwritten, written_cons]
      simp [writtenBy, Statement.passwordHash?]

theorem rollback_obeys {reply : Reply} :
    (do
      let _ ← perform (.rollback t)
      return reply : Route Reply).Obeys R Allowed (fun _ _ => True) log :=
  ⟨trivial, fun _ _ _ _ => trivial⟩

theorem finish_obeys {ok : Bool} (howns : Owns log t) (h : ok = true → Complete log t)
    (hunspent : ok = true → Unspent log) :
    (finish t ok).Obeys R Allowed (fun _ _ => True) log := by
  unfold finish
  cases ok with
  | false => exact rollback_obeys
  | true =>
    refine ⟨⟨howns, h rfl, hunspent rfl⟩, fun result _ _ _ => ?_⟩
    cases result with
    | committed answered =>
      cases answered with
      | true => trivial
      | false => exact rollback_obeys
    | aborted => exact rollback_obeys

/-- After the statements of a transaction that has locked the row and written nothing before. -/
theorem Complete.of_after {hash : Option String} {log' : Log} (hsets : Sets log hash)
    (hafter : After t log hash log') (hnone : written t log = none) : Complete log' t := by
  have hwritten := hafter.written
  rw [hnone, Option.or_none] at hwritten
  cases hash with
  | none => exact .untouched (hafter.hashed.trans hsets) hwritten
  | some h =>
    obtain ⟨password, hpassword, hanswer⟩ := hsets
    exact .changed ⟨password, hafter.hashed.trans hpassword, hafter.answered _ _ hanswer⟩ hwritten

theorem mutateAccountSecurity_obeys {mutate : List Statement} (hfresh : Fresh log)
    (hno : .lock ∉ mutate) (hsets : Sets log (lastHash mutate)) :
    (mutateAccountSecurity mutate).Obeys R Allowed (fun _ _ => True) log := by
  unfold mutateAccountSecurity
  refine obeys_perform.mpr ⟨hfresh, fun begun before after _ => ?_⟩
  cases begun with
  | none => trivial
  | some t =>
    have hbegun := hfresh.cons (x := ⟨.begin, some t, before, after⟩) (fun _ => rfl)
      (fun _ h => by cases h) rfl
    have hrest : .lock ∉ mutate ++ [.update .bumpSecurityVersion, .other, .select] := by
      simp [hno]
    have hlast : lastHash (mutate ++ [.update .bumpSecurityVersion, .other, .select]) =
        lastHash mutate := by
      rw [lastHash, List.reverse_append, List.findSome?_append]
      rfl
    change Program.Obeys R Allowed (fun _ _ => True) _ (queries t (.lock ::
      (mutate ++ [.update .bumpSecurityVersion, .other, .select])) >>= finish t)
    refine Program.obeys_bind.mpr ((queries_lock_obeys .here (hbegun.written t) hrest).mono
      (fun _ _ h => h) ?_)
    intro log' ok hafter
    cases ok with
    | false => exact rollback_obeys
    | true =>
      have hafter := hafter rfl
      refine finish_obeys (hafter.answered _ _ .here) (fun _ => ?_)
        fun _ => hafter.unspent hbegun.unspent
      refine .of_after (hsets.cons rfl) ?_ (hbegun.written t)
      rw [← hlast]
      exact hafter

/-- `replaceUser`, for the hash that the request has computed, if it has computed one. -/
theorem replaceUser_obeys {lower : LowerCase} {current : UserRow} {attributes : User}
    {passwordHash : Option String} (hfresh : Fresh log) (hsets : Sets log passwordHash) :
    (replaceUser lower current attributes passwordHash).Obeys R Allowed (fun _ _ => True) log := by
  unfold replaceUser
  refine obeys_perform.mpr ⟨hfresh, fun begun before after _ => ?_⟩
  cases begun with
  | none => trivial
  | some t =>
    have hbegun := hfresh.cons (x := ⟨.begin, some t, before, after⟩) (fun _ => rfl)
      (fun _ h => by cases h) rfl
    dsimp only
    refine obeys_perform.mpr ⟨⟨.here, hbegun.written t⟩, fun locked before' after' _ => ?_⟩
    cases locked with
    | none => exact rollback_obeys
    | some row =>
      have hnone : written t (⟨.query t .lock, some row, before', after'⟩ ::
          ⟨.begin, some t, before, after⟩ :: log) = none := by
        rw [written_cons, hbegun.written]
        simp [writtenBy, Statement.passwordHash?]
      dsimp only
      split
      · exact rollback_obeys
      · refine Program.obeys_bind.mpr ((queries_obeys (.there .here) (by simp)).mono
          (fun _ _ h => h) ?_)
        intro log' ok hafter
        cases ok with
        | false => exact rollback_obeys
        | true =>
          obtain ⟨hanswered, hhashed, hwritten, hunspent⟩ := hafter rfl
          have hsame : hashed log' = hashed log := hhashed
          rw [hnone, Option.or_none] at hwritten
          refine finish_obeys (hanswered _ _ (.there .here)) (fun _ => ?_)
            fun _ => hunspent (hbegun.unspent.cons rfl)
          cases passwordHash with
          | none => exact .copied (hsame.trans hsets) (hanswered _ _ .here) hwritten
          | some h =>
            obtain ⟨password, hpassword, hanswer⟩ := hsets
            exact .changed ⟨password, hsame.trans hpassword,
              hanswered _ _ hanswer.there.there⟩ hwritten

theorem replaceWithPassword_obeys {lower : LowerCase} {current : UserRow} {attributes : User}
    (hfresh : Fresh log) (hnone : hashed log = none) :
    (replaceWithPassword lower current attributes).Obeys R Allowed (fun _ _ => True) log := by
  unfold replaceWithPassword
  split
  · exact replaceUser_obeys hfresh hnone
  · split
    · refine obeys_perform.mpr ⟨trivial, fun hash before after _ => ?_⟩
      cases hash with
      | none => trivial
      | some hash =>
        exact replaceUser_obeys (hfresh.cons (fun _ => rfl) (fun _ h => by cases h) rfl)
          sets_hashPassword
    · trivial

theorem fresh_nil : Fresh [] := by
  refine ⟨fun _ => rfl, ?_, unspent_nil⟩
  rintro t row ⟨before, after, h⟩
  cases h

/-- The log after the account has been read. -/
theorem fresh_findUser {user : Option UserRow} {before after : State} :
    Fresh [⟨.findUser, user, before, after⟩] :=
  fresh_nil.cons (fun _ => rfl) (fun _ h => by cases h) rfl

/-! ## The routes -/

variable (cfg : Config)

theorem login_obeys (password : String) :
    (login cfg password).Obeys R Allowed (fun _ _ => True) [] := by
  unfold login
  refine obeys_perform.mpr ⟨trivial, fun user before after _ => ?_⟩
  cases user with
  | none => trivial
  | some user =>
    dsimp only
    refine obeys_perform.mpr ⟨trivial, fun passwordOk before' after' _ => ?_⟩
    refine obeys_perform.mpr ⟨trivial, fun passed before'' after'' _ => ?_⟩
    split
    · trivial
    · rename_i hok
      simp only [Bool.or_eq_true, Bool.not_eq_true', not_or, Bool.not_eq_false] at hok
      split
      · refine obeys_perform.mpr ⟨trivial, fun hash _ _ _ => ?_⟩
        cases hash with
        | none => trivial
        | some hash =>
          refine obeys_perform.mpr ⟨⟨⟨password, ?_, .here⟩, ?_⟩, fun _ _ _ _ => trivial⟩
          · rw [hok.1.2]
            exact .there (.there .here)
          · exact (((unspent_nil.cons rfl).cons rfl).cons rfl).cons rfl
      · trivial

theorem patchProfile_obeys (patch : ProfilePatch) :
    (patchProfile patch).Obeys R Allowed (fun _ _ => True) [] := by
  refine mutateAccountSecurity_obeys fresh_nil (by simp) ?_
  have hlast : lastHash [.update (.updateUser patch.patch), .other] = none := by
    simp [lastHash, Statement.passwordHash?, Write.passwordHash?, patch.noPassword]
  rw [hlast]
  rfl

theorem resetPassword_obeys (password : String) :
    (resetPassword password).Obeys R Allowed (fun _ _ => True) [] := by
  refine obeys_perform.mpr ⟨trivial, fun hash before after _ => ?_⟩
  cases hash with
  | none => trivial
  | some hash =>
    exact mutateAccountSecurity_obeys (fresh_nil.cons (fun _ => rfl) (fun _ h => by cases h) rfl)
      (by simp) sets_hashPassword

theorem scimPut_obeys (ifMatch : List String) (body : Value) :
    (scimPut cfg ifMatch body).Obeys R Allowed (fun _ _ => True) [] := by
  unfold scimPut
  refine obeys_perform.mpr ⟨trivial, fun current before after _ => ?_⟩
  cases current with
  | none => trivial
  | some row =>
    dsimp only
    split
    · trivial
    · exact replaceWithPassword_obeys fresh_findUser rfl

theorem scimPatch_obeys (ifMatch : List String) (body : Value) :
    (scimPatch cfg ifMatch body).Obeys R Allowed (fun _ _ => True) [] := by
  unfold scimPatch
  refine obeys_perform.mpr ⟨trivial, fun current before after _ => ?_⟩
  cases current with
  | none => trivial
  | some row =>
    dsimp only
    split
    · split
      · trivial
      · trivial
      · exact replaceWithPassword_obeys fresh_findUser rfl
    · trivial

end Programs

theorem passwords_spec (cfg : Config) :
    Spec (passwords cfg) (fun _ => Allowed) (fun _ _ _ => True) where
  obeys
    | .login password => login_obeys cfg password
    | .patchProfile patch => patchProfile_obeys patch
    | .resetPassword password => resetPassword_obeys password
    | .scimPut ifMatch body => scimPut_obeys cfg ifMatch body
    | .scimPatch ifMatch body => scimPatch_obeys cfg ifMatch body

end AuthMe.Passwords

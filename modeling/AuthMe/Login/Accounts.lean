import AuthMe.Login.Fresh
import AuthMe.Store.FactorRun

/-!
# The accounts in a run

`RowStep` says what one step of the login routes can do to the row of a user, and by which
operation (`step_row`). A user keeps the key under which it is stored (`Keyed`), the
security version does not go down (`version_step`), and the recovery codes of an account are
spent one by one (`codes_run`).
-/

namespace AuthMe.Login

open Service Store
open Transition (Run Always)

variable {cfg : Config} {s s' : State} {p p' m : Pool} {tr : Trace}
  {e : Event Request Choice Change} {o : Output operations State}

/-- The call of the event performs this operation. -/
def PerformsNow (p : Pool) (e : Event Request Choice Change) (op : Op) : Prop :=
  ∃ n choice call next, e = .resume n choice ∧ p.calls n = some call ∧
    call.program = .await op next

/-- What a step can do to the row of a user. -/
inductive RowStep (cfg : Config) (p : Pool) (e : Event Request Choice Change) (key : UserKey) :
    Option User → Option User → Prop
  | same (row : Option User) : RowStep cfg p e key row row
  | factor {u u' : User} {c : Factor.Call} (h : c.apply cfg.backend p.store.clock u = some u')
      (he : e = .change (.factor key.1 key.2 c) ∨ (Factor.Done.mk c true).isReset = false) :
      RowStep cfg p e key (some u) (some u')
  | failure (u : User) (h : PerformsNow p e (.account (.recordLoginFailure key.1 key.2))) :
      RowStep cfg p e key (some u) (some (u.recordLoginFailure p.store.clock))
  | success (u : User) (h : PerformsNow p e (.account (.recordLoginSuccess key.1 key.2))) :
      RowStep cfg p e key (some u) (some u.recordLoginSuccess)
  | rehash (u : User) (passwordHash : String) :
      RowStep cfg p e key (some u) (some { u with passwordHash := passwordHash })
  | unlock (u : User) : RowStep cfg p e key (some u) (some u.unlock)
  | bump (u : User) (he : e = .change (.bumpSecurityVersion key.1 key.2)) :
      RowStep cfg p e key (some u) (some u.bumpSecurityVersion)
  | profile (u : User) (profile : Profile) :
      RowStep cfg p e key (some u) (some (updateProfile u profile))
  | created {u : User} (hkey : (u.realm, u.id) = key) (hlock : u.lockedUntil = none)
      (hdeleted : key ∉ p.store.accounts.deleted) : RowStep cfg p e key none (some u)
  | deleted (row : Option User) (he : e = .change (.deleteUser key.1 key.2)) :
      RowStep cfg p e key row none

namespace Accounts

variable {a a' : Accounts}

theorem get?_modify_cases (a : Accounts) (realm id : String) (f : User → User) (key : UserKey) :
    (a.modify realm id f).users.get? key = a.users.get? key ∨ key = (realm, id) ∧
      ∃ u, a.users.get? key = some u ∧ (a.modify realm id f).users.get? key = some (f u) := by
  unfold modify
  rw [Users.get?_modify]
  split
  · rename_i hkey
    cases hget : a.users.get? key with
    | none => exact .inl (by simp)
    | some u => exact .inr ⟨hkey, u, rfl, by simp⟩
  · exact .inl rfl

theorem attempt_eq_true {realm id : String} {f : User → Option User}
    (h : a.attempt realm id f = (true, a')) : ∃ u u', a.users.get? (realm, id) = some u ∧
      f u = some u' ∧ a' = { a with users := a.users.set (realm, id) u' } := by
  unfold attempt at h
  split at h
  · cases h
  · rename_i u' hu'
    cases h
    obtain ⟨u, hu, hf⟩ := Option.bind_eq_some_iff.mp hu'
    exact ⟨u, u', hu, hf, rfl⟩

theorem get?_attempt_cases (a : Accounts) (realm id : String) (f : User → Option User)
    (key : UserKey) : (a.attempt realm id f).2.users.get? key = a.users.get? key ∨
      key = (realm, id) ∧ ∃ u u', a.users.get? key = some u ∧ f u = some u' ∧
        (a.attempt realm id f).2.users.get? key = some u' := by
  unfold attempt
  split
  · exact .inl rfl
  · rename_i u' hu'
    obtain ⟨u, hu, hf⟩ := Option.bind_eq_some_iff.mp hu'
    by_cases hkey : key = (realm, id)
    · subst hkey
      exact .inr ⟨rfl, u, u', hu, hf, OrderedMap.get?_set_self _ _ _⟩
    · exact .inl (OrderedMap.get?_set_of_ne _ hkey _)

theorem admits_eq_true {realm : String} {u : User} (h : a.admits realm u = true) :
    u.realm = realm ∧ a.users.get? (realm, u.id) = none ∧ (realm, u.id) ∉ a.deleted ∧
      u.lockedUntil = none ∧ u.totpConfirmed = false := by
  simpa [admits, and_assoc] using h

end Accounts

theorem row_set {users : Users} {u : User} {realm : String} {key : UserKey}
    (hnone : users.get? (realm, u.id) = none) (hrealm : u.realm = realm)
    (hlock : u.lockedUntil = none) (hdeleted : (realm, u.id) ∉ p.store.accounts.deleted)
    (husers : p.store.accounts.users = users) :
    RowStep cfg p e key (p.store.accounts.users.get? key) ((users.set (realm, u.id) u).get? key) := by
  subst husers
  by_cases hkey : key = (realm, u.id)
  · subst hkey
    rw [hnone, OrderedMap.get?_set_self]
    exact .created (by rw [hrealm]) hlock hdeleted
  · rw [OrderedMap.get?_set_of_ne _ hkey]
    exact .same _

/-- A change of the row under one key. -/
theorem row_modify {realm id : String} {f : User → User} {key : UserKey}
    (h : ∀ u, key = (realm, id) → RowStep cfg p e key (some u) (some (f u))) :
    RowStep cfg p e key (p.store.accounts.users.get? key)
      ((p.store.accounts.modify realm id f).users.get? key) := by
  rcases p.store.accounts.get?_modify_cases realm id f key with hsame | ⟨hkey, u, hu, hu'⟩
  · rw [hsame]
    exact .same _
  · rw [hu, hu']
    exact h u hkey

theorem row_attempt {realm id : String} {f : User → Option User} {key : UserKey}
    (h : ∀ u u', key = (realm, id) → f u = some u' → RowStep cfg p e key (some u) (some u')) :
    RowStep cfg p e key (p.store.accounts.users.get? key)
      ((p.store.accounts.attempt realm id f).2.users.get? key) := by
  rcases p.store.accounts.get?_attempt_cases realm id f key with
    hsame | ⟨hkey, u, u', hu, hf, hu'⟩
  · rw [hsame]
    exact .same _
  · rw [hu, hu']
    exact h u u' hkey hf

/-- What the operations of the routes on the accounts do to a row. -/
theorem account_row {choice : Choice} {op : AccountOp} {res : op.Res} {accounts : Accounts}
    (hnow : PerformsNow p e (.account op))
    (h : p.store.accounts.answer cfg p.store.clock choice op = some (res, accounts))
    (key : UserKey) :
    RowStep cfg p e key (p.store.accounts.users.get? key) (accounts.users.get? key) := by
  cases op with
  | findUserByLogin realm login => cases h; exact .same _
  | findUserById realm id => cases h; exact .same _
  | securityVersionFor realm id => cases h; exact .same _
  | resolve realm identity allowCreate =>
    simp only [Accounts.answer, Accounts.resolve] at h
    split at h
    · split at h <;> cases h
      exact .same _
    · split at h
      · rename_i hcreate
        simp only [Bool.and_eq_true] at hcreate
        cases h
        obtain ⟨hrealm, hnone, hdeleted, hlock, -⟩ := Accounts.admits_eq_true hcreate.1.2
        exact row_set hnone hrealm hlock hdeleted rfl
      · cases h
    · cases h; exact .same _
    · cases h; exact .same _
  | consumeTotpStep realm id step =>
    obtain rfl : (p.store.accounts.attempt realm id _).2 = accounts :=
      congrArg Prod.snd (Option.some.inj h)
    refine row_attempt fun u u' hkey hf => ?_
    exact .factor (c := .consumeTotpStep step) hf (.inr rfl)
  | consumeRecoveryCode realm id digest =>
    obtain rfl : (p.store.accounts.attempt realm id _).2 = accounts :=
      congrArg Prod.snd (Option.some.inj h)
    refine row_attempt fun u u' hkey hf => ?_
    exact .factor (c := .consumeRecoveryCode digest) hf (.inr rfl)
  | rehashPasswordIfCurrent realm id expectedHash =>
    simp only [Accounts.answer] at h
    split at h
    case h_2 => cases h
    obtain rfl : (p.store.accounts.attempt realm id _).2 = accounts :=
      congrArg Prod.snd (Option.some.inj h)
    refine row_attempt fun u u' hkey hf => ?_
    unfold User.rehashPasswordIfCurrent at hf
    split at hf <;> cases hf
    exact .rehash u _
  | recordLoginFailure realm id =>
    cases h
    refine row_modify fun u hkey => ?_
    subst hkey
    exact .failure u hnow
  | recordLoginSuccess realm id =>
    cases h
    refine row_modify fun u hkey => ?_
    subst hkey
    exact .success u hnow

/-- **What a step does to the row of a user.** -/
theorem step_row (h : Service.step (routes cfg) p e = some (p', o)) (key : UserKey) :
    RowStep cfg p e key (p.store.accounts.users.get? key) (p'.store.accounts.users.get? key) := by
  cases step_move h with
  | start r => exact .same _
  | @reply n choice call op next res s hcall hprogram hanswer =>
    change answer cfg p.store choice op = some (res, s) at hanswer
    cases answer_cases hanswer with
    | @account choice' op res accounts haccounts =>
      exact account_row ⟨n, choice, call, next, rfl, hcall, hprogram⟩ haccounts key
    | _ => exact .same _
  | @change e s hchange =>
    change change cfg p.store e = some s at hchange
    cases e with
    | elapse clock =>
      simp only [change] at hchange
      split at hchange <;> cases hchange
      exact .same _
    | createUser u =>
      simp only [change] at hchange
      split at hchange <;> cases hchange
      rename_i hadmits
      obtain ⟨-, hnone, hdeleted, hlock, -⟩ := Accounts.admits_eq_true hadmits
      exact row_set hnone rfl hlock hdeleted rfl
    | updateUser realm id profile => cases hchange; exact row_modify fun u _ => .profile u profile
    | unlockUser realm id => cases hchange; exact row_modify fun u _ => .unlock u
    | bumpSecurityVersion realm id =>
      cases hchange
      refine row_modify fun u hkey => ?_
      subst hkey
      exact .bump u rfl
    | factor realm id c =>
      cases hchange
      refine row_attempt fun u u' hkey hf => ?_
      subst hkey
      exact .factor hf (.inl rfl)
    | deleteUser realm id =>
      cases hchange
      dsimp only
      by_cases hkey : key = (realm, id)
      · subst hkey
        rw [OrderedMap.get?_erase_self]
        exact .deleted _ rfl
      · rw [OrderedMap.get?_erase_of_ne _ hkey]
        exact .same _
    | createChallenge input id =>
      obtain ⟨-, rfl⟩ := change_createChallenge hchange
      exact .same _
    | createCredential c =>
      simp only [change] at hchange
      split at hchange <;> cases hchange
      exact .same _
    | _ => cases hchange; exact .same _

/-! ## What a row keeps -/

/-- An operation on the second factor leaves the rest of the row alone. -/
theorem factor_frame {backend : Backend} {now : Instant} {u u' : User} {c : Factor.Call}
    (h : c.apply backend now u = some u') : u'.realm = u.realm ∧ u'.id = u.id ∧
      u'.securityVersion = u.securityVersion ∧ u'.lockedUntil = u.lockedUntil := by
  cases c with
  | beginTotpEnrollment pendingSecret => cases h; exact ⟨rfl, rfl, rfl, rfl⟩
  | configureTotp c => cases h; exact ⟨rfl, rfl, rfl, rfl⟩
  | confirmTotpEnrollment e =>
    simp only [Factor.Call.apply, User.confirmTotpEnrollment] at h
    split at h <;> cases h
    exact ⟨rfl, rfl, rfl, rfl⟩
  | consumeTotpStep n =>
    simp only [Factor.Call.apply, User.acceptTotpStep, User.consumeTotpStep] at h
    split at h
    · split at h
      · cases h; exact ⟨rfl, rfl, rfl, rfl⟩
      · split at h <;> cases h
        exact ⟨rfl, rfl, rfl, rfl⟩
    · cases h
  | consumeRecoveryCode digest =>
    simp only [Factor.Call.apply, User.consumeRecoveryCode] at h
    split at h <;> cases h
    exact ⟨rfl, rfl, rfl, rfl⟩

theorem recordLoginFailure_frame (u : User) (now : Instant) :
    (u.recordLoginFailure now).realm = u.realm ∧ (u.recordLoginFailure now).id = u.id ∧
      (u.recordLoginFailure now).securityVersion = u.securityVersion ∧
      (u.recordLoginFailure now).recoveryCodeHashes = u.recoveryCodeHashes := by
  unfold User.recordLoginFailure
  split <;> exact ⟨rfl, rfl, rfl, rfl⟩

namespace RowStep

variable {key : UserKey} {u u' : User}

theorem key_eq (h : RowStep cfg p e key (some u) (some u')) :
    (u'.realm, u'.id) = (u.realm, u.id) := by
  cases h with
  | factor h _ => rw [(factor_frame h).1, (factor_frame h).2.1]
  | failure => rw [(recordLoginFailure_frame u _).1, (recordLoginFailure_frame u _).2.1]
  | _ => rfl

theorem securityVersion_le (h : RowStep cfg p e key (some u) (some u')) :
    u.securityVersion ≤ u'.securityVersion := by
  cases h with
  | factor h _ => exact Nat.le_of_eq (factor_frame h).2.2.1.symm
  | failure => exact Nat.le_of_eq (recordLoginFailure_frame u _).2.2.1.symm
  | bump => exact Nat.le_succ _
  | _ => exact Nat.le_refl _

end RowStep

/-- Each user is stored under its realm and identifier. -/
def Keyed (users : Users) : Prop :=
  ∀ {key : UserKey} {u : User}, users.get? key = some u → key = (u.realm, u.id)

theorem keyed_step (hp : Keyed p.store.accounts.users)
    (h : Service.step (routes cfg) p e = some (p', o)) : Keyed p'.store.accounts.users := by
  intro key u' hu'
  have hrow := step_row h key
  rw [hu'] at hrow
  cases hu : p.store.accounts.users.get? key with
  | none =>
    rw [hu] at hrow
    cases hrow with
    | created hkey _ _ => exact hkey.symm
  | some u =>
    rw [hu] at hrow
    rw [hrow.key_eq]
    exact hp hu

theorem keyed_run (hp : Keyed p.store.accounts.users)
    (h : Run (Service.step (routes cfg)) Always p tr p') : Keyed p'.store.accounts.users :=
  h.invariant (I := fun p => Keyed p.store.accounts.users)
    (fun _ _ _ _ hp _ hstep => keyed_step hp hstep) hp

/-! ## Security versions -/

theorem account_deleted {choice : Choice} {op : AccountOp} {res : op.Res} {a a' : Accounts}
    {now : Instant} (h : a.answer cfg now choice op = some (res, a')) : a'.deleted = a.deleted := by
  have hattempt : ∀ realm id f, (a.attempt realm id f).2.deleted = a.deleted := by
    intro realm id f
    unfold Accounts.attempt
    split <;> rfl
  cases op with
  | resolve realm identity allowCreate =>
    simp only [Accounts.answer, Accounts.resolve] at h
    split at h
    · split at h <;> cases h
      rfl
    · split at h <;> cases h
      rfl
    · cases h; rfl
    · cases h; rfl
  | consumeTotpStep realm id step =>
    exact (congrArg (fun r => r.2.deleted) (Option.some.inj h)).symm.trans (hattempt ..)
  | consumeRecoveryCode realm id digest =>
    exact (congrArg (fun r => r.2.deleted) (Option.some.inj h)).symm.trans (hattempt ..)
  | rehashPasswordIfCurrent realm id expectedHash =>
    simp only [Accounts.answer] at h
    split at h
    · exact (congrArg (fun r => r.2.deleted) (Option.some.inj h)).symm.trans (hattempt ..)
    · cases h
  | _ => cases h; rfl

/-- An identifier that has been deleted stays deleted. -/
theorem deleted_step (h : Service.step (routes cfg) p e = some (p', o)) {key : UserKey}
    (hkey : key ∈ p.store.accounts.deleted) : key ∈ p'.store.accounts.deleted := by
  cases step_move h with
  | start r => exact hkey
  | @reply n choice call op next res s hcall hprogram hanswer =>
    change answer cfg p.store choice op = some (res, s) at hanswer
    cases answer_cases hanswer with
    | account haccounts =>
      dsimp only
      rw [account_deleted haccounts]
      exact hkey
    | _ => exact hkey
  | @change e s hchange =>
    change change cfg p.store e = some s at hchange
    cases e with
    | deleteUser realm id =>
      cases hchange
      exact List.mem_cons_of_mem _ hkey
    | elapse clock =>
      simp only [change] at hchange
      split at hchange <;> cases hchange
      exact hkey
    | createUser u =>
      simp only [change] at hchange
      split at hchange <;> cases hchange
      exact hkey
    | createChallenge input id =>
      obtain ⟨-, rfl⟩ := change_createChallenge hchange
      exact hkey
    | createCredential c =>
      simp only [change] at hchange
      split at hchange <;> cases hchange
      exact hkey
    | factor realm id c =>
      cases hchange
      dsimp only [Accounts.attempt]
      split <;> exact hkey
    | _ => cases hchange; exact hkey

theorem deleted_of_deleteUser {realm id : String}
    (h : Service.step (routes cfg) p (.change (.deleteUser realm id)) = some (p', o)) :
    (realm, id) ∈ p'.store.accounts.deleted := by
  cases step_move h with
  | change hchange =>
    cases hchange
    exact List.mem_cons_self

/-- The account has this security version or a later one, or it was deleted. -/
def AtLeast (s : State) (key : UserKey) (version : Nat) : Prop :=
  (∃ u, s.accounts.users.get? key = some u ∧ version ≤ u.securityVersion) ∨
    s.accounts.users.get? key = none ∧ key ∈ s.accounts.deleted

/-- **The security version of an account does not go down.** -/
theorem version_run {key : UserKey} {version : Nat}
    (h : Run (Service.step (routes cfg)) Always p tr p') (hp : AtLeast p.store key version) :
    AtLeast p'.store key version := by
  refine h.invariant (I := fun p => AtLeast p.store key version) ?_ hp
  intro p e p' o hp _ hstep
  have hrow := step_row hstep key
  rcases hp with ⟨u, hu, hle⟩ | ⟨hnone, hdeleted⟩
  · rw [hu] at hrow
    cases hu' : p'.store.accounts.users.get? key with
    | none =>
      rw [hu'] at hrow
      cases hrow with
      | deleted _ he =>
        subst he
        exact .inr ⟨hu', deleted_of_deleteUser hstep⟩
    | some u' =>
      rw [hu'] at hrow
      exact .inl ⟨u', hu', Nat.le_trans hle hrow.securityVersion_le⟩
  · rw [hnone] at hrow
    refine .inr ⟨?_, deleted_step hstep hdeleted⟩
    cases hu' : p'.store.accounts.users.get? key with
    | none => rfl
    | some u' =>
      rw [hu'] at hrow
      cases hrow with
      | created _ _ hnot => exact absurd hdeleted hnot

/-! ## Recovery codes -/

/-- How often a code is stored for the account. -/
def codes (s : State) (key : UserKey) (digest : String) : Nat :=
  ((s.accounts.users.get? key).map fun u => u.recoveryCodeHashes.count digest).getD 0

/-- The step is a route that has consumed the code. -/
def isConsumption (key : UserKey) (digest : String)
    (x : Event Request Choice Change × Output operations State) : Bool :=
  match x.2 with
  | .replied _ ⟨.account (.consumeRecoveryCode realm id d), res, _, _⟩ =>
    res && (realm, id) = key && d = digest
  | _ => false

/-- The account is there, and the step does not set its second factor anew. -/
def KeepsCodes (key : UserKey) (p : Pool) (e : Event Request Choice Change) : Prop :=
  (p.store.accounts.users.get? key).isSome ∧
    ∀ c, e = .change (.factor key.1 key.2 c) → (Factor.Done.mk c true).isReset = false

theorem codes_row {key : UserKey} {digest : String} {row : Option User}
    (h : RowStep cfg p e key (p.store.accounts.users.get? key) row) (hkeeps : KeepsCodes key p e) :
    (row.map fun u => u.recoveryCodeHashes.count digest).getD 0 ≤ codes p.store key digest := by
  unfold codes
  obtain ⟨hsome, hreset⟩ := hkeeps
  generalize p.store.accounts.users.get? key = old at h hsome ⊢
  cases h with
  | factor happly he =>
    have hcount := Factor.count_apply happly (he.elim (hreset _) id) digest
    simp only [Option.map_some, Option.getD_some]
    omega
  | failure u => simp [(recordLoginFailure_frame u _).2.2.2]
  | created => cases hsome
  | deleted => simp
  | _ => exact Nat.le_refl _

/-- A route that has consumed a code has taken it out of the list. -/
theorem consumption_row {key : UserKey} {digest : String}
    (h : Service.step (routes cfg) p e = some (p', o)) (hhit : isConsumption key digest (e, o) = true) :
    ∃ u u', p.store.accounts.users.get? key = some u ∧
      p'.store.accounts.users.get? key = some u' ∧
      (Factor.Call.consumeRecoveryCode digest).apply cfg.backend p.store.clock u = some u' := by
  unfold isConsumption at hhit
  split at hhit
  case h_2 => cases hhit
  rename_i n realm id d res before after ho
  simp only [Bool.and_eq_true, decide_eq_true_eq] at hhit
  obtain ⟨⟨rfl, rfl⟩, rfl⟩ := hhit
  cases step_move h with
  | start r => cases ho
  | change hchange => cases ho
  | @reply k choice call op next res s hcall hprogram hanswer =>
    cases ho
    change answer cfg p.store choice (.account (.consumeRecoveryCode realm id d)) = some (true, after)
      at hanswer
    cases answer_cases hanswer with
    | account haccounts =>
      obtain ⟨u, u', hu, hu', rfl⟩ := Accounts.attempt_eq_true (Option.some.inj haccounts)
      exact ⟨u, u', hu, OrderedMap.get?_set_self _ _ _, hu'⟩

/-- **Each code is spent once**: the codes that are left and those that routes have consumed are
no more than there were. -/
theorem codes_run {key : UserKey} {digest : String}
    (h : Run (Service.step (routes cfg)) (KeepsCodes key) p tr p') :
    codes p'.store key digest + tr.countP (isConsumption key digest) ≤ codes p.store key digest := by
  induction h with
  | nil => simp
  | @cons p p₁ p' e o tr hkeeps hstep _ ih =>
    suffices hone : codes p₁.store key digest + (if isConsumption key digest (e, o) then 1 else 0) ≤
        codes p.store key digest by
      rw [List.countP_cons]
      omega
    cases hhit : isConsumption key digest (e, o) with
    | false => exact codes_row (step_row hstep key) hkeeps
    | true =>
      obtain ⟨u, u', hu, hu', hcode⟩ := consumption_row hstep hhit
      have hcount := Factor.count_apply hcode rfl digest
      simp only [if_true] at hcount
      simp only [codes, hu, hu', Option.map_some, Option.getD_some, if_true]
      omega

/-! ## Reads -/

/-- The call has seen this record of the user, under the key of the user. -/
def Reads (log : Log) (realm : String) (user : User) : Prop :=
  ∃ x ∈ log, x.after.accounts.users.get? (realm, user.id) = some user

/-- An answer in a log was given at a step of the run. -/
theorem answered_at {s₀ : State} (hkeyed : Keyed s₀.accounts.users)
    (h : Run (Service.step (routes cfg)) Always (.initial s₀) tr p) {n : Nat} {call : Call}
    (hcall : p.calls n = some call) {op : Op} {res : op.Res}
    (ha : Answered (I := operations) call.log op res) : ∃ before after choice,
      (⟨op, res, before, after⟩ : Entry operations State) ∈ call.log ∧
        Keyed before.accounts.users ∧ answer cfg before choice op = some (res, after) := by
  obtain ⟨before, after, hmem⟩ := ha
  rcases Run.entry h hcall hmem with ⟨old, hold, -⟩ | ⟨t₁, t₂, choice, m, m', -, hbefore, -, hanswer,
    hm, hm', -⟩
  · cases hold
  · dsimp only at hm hm'
    refine ⟨before, after, choice, hmem, hm ▸ keyed_run hkeyed hbefore, ?_⟩
    rw [← hm, ← hm']
    exact hanswer

/-- The operation answers with the record of a user. -/
inductive Gives (realm : String) (user : User) : (op : AccountOp) → op.Res → Prop
  | login (login : String) : Gives realm user (.findUserByLogin realm login) (some user)
  | id (id : String) : Gives realm user (.findUserById realm id) (some user)
  | resolved (identity : Identity) (allowCreate : Bool) (status : ResolutionStatus) :
      Gives realm user (.resolve realm identity allowCreate) ⟨status, some user⟩

/-- The call was given the record of the user. -/
def Given (log : Log) (realm : String) (user : User) : Prop :=
  ∃ op res, Gives realm user op res ∧ Answered (I := operations) log (.account op) res

theorem Given.mono {log log' : Log} {realm : String} {user : User} (h : Given log realm user)
    (hlog : ∀ x ∈ log, x ∈ log') : Given log' realm user := by
  obtain ⟨op, res, hgives, ha⟩ := h
  exact ⟨op, res, hgives, ha.mono hlog⟩

/-- A record that is given is the stored one. -/
theorem stored_of_gives {a a' : Accounts} {now : Instant} {choice : Choice} {realm : String}
    {user : User} {op : AccountOp} {res : op.Res} (hkeyed : Keyed a.users)
    (hgives : Gives realm user op res) (h : a.answer cfg now choice op = some (res, a')) :
    a'.users.get? (realm, user.id) = some user := by
  cases hgives with
  | login login =>
    simp only [Accounts.answer, Option.some.injEq, Prod.mk.injEq] at h
    obtain ⟨hfound, rfl⟩ := h
    obtain ⟨⟨key, u⟩, hfirst, rfl⟩ := Option.map_eq_some_iff.mp hfound
    obtain ⟨hget, hmatch⟩ := OrderedMap.get?_of_findFirst? hfirst
    simp only [Bool.and_eq_true, decide_eq_true_eq] at hmatch
    have hkey := hkeyed hget
    have hid : (realm, u.id) = key := by rw [hkey] at hmatch ⊢; rw [← hmatch.1]
    dsimp only
    rw [hid, hget]
  | id id =>
    simp only [Accounts.answer, Option.some.injEq, Prod.mk.injEq] at h
    obtain ⟨hget, rfl⟩ := h
    cases hkeyed hget
    exact hget
  | resolved identity allowCreate status =>
    simp only [Accounts.answer, Accounts.resolve] at h
    split at h
    · split at h <;> cases h
      rename_i hget
      cases hkeyed hget
      exact hget
    · split at h <;> cases h
      exact OrderedMap.get?_set_self _ _ _
    · cases h
    · cases h

theorem reads_of_given {s₀ : State} (hkeyed : Keyed s₀.accounts.users)
    (h : Run (Service.step (routes cfg)) Always (.initial s₀) tr p) {n : Nat} {call : Call}
    (hcall : p.calls n = some call) {realm : String} {user : User}
    (hgiven : Given call.log realm user) : Reads call.log realm user := by
  obtain ⟨op, res, hgives, ha⟩ := hgiven
  obtain ⟨before, after, choice, hmem, hkeyed', hanswer⟩ := answered_at hkeyed h hcall ha
  refine ⟨_, hmem, ?_⟩
  cases answer_cases hanswer with
  | account haccounts => exact stored_of_gives hkeyed' hgives haccounts

/-- The record that a first factor was checked with was given to the call. -/
theorem FirstFactorOk.given {realm method : String} {form : LoginForm} {log : Log} {user : User}
    (h : FirstFactorOk cfg realm form log user method) : Given log realm user := by
  cases h with
  | password hread _ => exact ⟨_, _, .login _, hread⟩
  | ldap _ _ hresolve _ => exact ⟨_, _, .resolved _ _ _, hresolve⟩

end AuthMe.Login

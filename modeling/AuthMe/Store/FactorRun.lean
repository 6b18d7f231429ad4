import AuthMe.Store.Factor

/-!
# One-use of TOTP steps and recovery codes

`step_user` says what a step of the machine of `Store.Factor` does to the account: it
returns a call that has succeeded and has the effect of `Call.apply`, or it leaves the
account as it is. So the transactions of PostgreSQL have the runs of calls without a
pause, and what follows is about `Call.apply`.

`factor_one_use` collects the laws: between two resets the recorded TOTP steps increase, a
recovery code that is accepted is taken out of the list once and nothing else happens to
the list, and a confirmation is one of the enrollment that was begun last.
-/

namespace AuthMe.Store.Factor

open Transition (Run Always)

variable {backend : Backend} {s s' : State} {e : Event} {o : Option Done}
  {tr : List (Event × Option Done)}

/-! ## Transactions -/

/-- The open transaction has read the row as it is. -/
def State.Consistent (s : State) : Prop :=
  match s.transaction with
  | none => True
  | some (.selected _ hashes) => hashes = s.user.recoveryCodeHashes
  | some (.updated digest hashes) =>
    s.user.consumeRecoveryCode digest = some { s.user with recoveryCodeHashes := hashes }

/-- What a step does to the account. -/
inductive Effect (backend : Backend) (u : User) : Option Done → User → Prop
  | silent : Effect backend u none u
  | failed (c : Call) : Effect backend u (some ⟨c, false⟩) u
  | applied {c : Call} {now : Instant} {u' : User} (h : c.apply backend now u = some u') :
      Effect backend u (some ⟨c, true⟩) u'

theorem step_user (hs : s.Consistent) (h : step backend s e = some (s', o)) :
    Effect backend s.user o s'.user ∧ s'.Consistent := by
  cases e with
  | elapse clock =>
    simp only [step] at h
    split at h
    · cases h
      exact ⟨.silent, hs⟩
    · cases h
  | call c =>
    simp only [step] at h
    split at h
    · rename_i hfree
      split at h
      · cases h
        exact ⟨.failed c, hs⟩
      · rename_i user happly
        cases h
        exact ⟨.applied happly, by simp [State.Consistent, hfree.1]⟩
    · cases h
  | select digest =>
    simp only [step] at h
    split at h
    · cases h
      exact ⟨.silent, rfl⟩
    · cases h
  | update =>
    simp only [step] at h
    split at h
    · rename_i digest hashes htransaction
      split at h
      · rename_i hmem
        cases h
        refine ⟨.silent, ?_⟩
        simp only [State.Consistent, htransaction] at hs ⊢
        subst hs
        rw [User.consumeRecoveryCode, if_pos hmem]
      · cases h
    · cases h
  | commit =>
    simp only [step] at h
    split at h
    · rename_i digest hashes htransaction
      cases h
      simp only [State.Consistent, htransaction] at hs
      have happly : (Call.consumeRecoveryCode digest).apply backend s.clock s.user =
          some { s.user with recoveryCodeHashes := hashes } := hs
      exact ⟨.applied happly, trivial⟩
    · cases h
  | rollback =>
    simp only [step] at h
    split at h
    · cases h
      refine ⟨?_, trivial⟩
      split
      · exact .silent
      · exact .failed _
    · cases h
      exact ⟨.silent, trivial⟩
    · cases h

theorem consistent_run (hs : s.Consistent) (h : Run (step backend) Always s tr s') :
    s'.Consistent :=
  h.invariant (fun _ _ _ _ hs _ h => (step_user hs h).2) hs

/-! ## The effect of a call -/

section Apply

variable {u u' : User} {c : Call} {now : Instant}

/-- A call that is no reset records a TOTP step only if it is newer than the last one. -/
theorem lastTotpStep_apply (h : c.apply backend now u = some u')
    (hreset : (Done.mk c true).isReset = false) :
    match c with
    | .consumeTotpStep n => (∀ l, u.lastTotpStep = some l → l < n) ∧ u'.lastTotpStep = some n
    | _ => u'.lastTotpStep = u.lastTotpStep := by
  cases c with
  | beginTotpEnrollment pendingSecret => cases h; rfl
  | confirmTotpEnrollment e => cases hreset
  | configureTotp c => cases hreset
  | consumeTotpStep n =>
    simp only [Call.apply, User.acceptTotpStep, User.consumeTotpStep] at h
    split at h
    · split at h
      · rename_i hlast
        cases h
        refine ⟨fun l hl => ?_, rfl⟩
        cases hlast.symm.trans hl
      · rename_i l hlast
        split at h
        · rename_i hlt
          cases h
          refine ⟨fun l' hl' => ?_, rfl⟩
          cases hlast.symm.trans hl'
          exact hlt
        · cases h
    · cases h
  | consumeRecoveryCode digest =>
    simp only [Call.apply, User.consumeRecoveryCode] at h
    split at h
    · cases h; rfl
    · cases h

/-- The step that a call records is the last one after it. -/
theorem lastTotpStep_of_recorded {n : Int} (h : c.apply backend now u = some u')
    (hrecorded : (Done.mk c true).recorded? = some n) : u'.lastTotpStep = some n := by
  cases c with
  | beginTotpEnrollment pendingSecret => cases hrecorded
  | confirmTotpEnrollment e =>
    simp only [Done.recorded?, if_true, Option.some.injEq] at hrecorded
    simp only [Call.apply, User.confirmTotpEnrollment] at h
    split at h
    · cases h
      exact congrArg some hrecorded
    · cases h
  | configureTotp c => cases hrecorded
  | consumeTotpStep step =>
    cases hrecorded
    exact (lastTotpStep_apply h rfl).2
  | consumeRecoveryCode digest => cases hrecorded

/-- A call that is no reset takes out the code that it accepts, and nothing else happens to
the codes. -/
theorem count_apply (h : c.apply backend now u = some u')
    (hreset : (Done.mk c true).isReset = false) (digest : String) :
    u'.recoveryCodeHashes.count digest + (if c = .consumeRecoveryCode digest then 1 else 0) =
      u.recoveryCodeHashes.count digest := by
  cases c with
  | beginTotpEnrollment pendingSecret => cases h; simp [User.beginTotpEnrollment]
  | confirmTotpEnrollment e => cases hreset
  | configureTotp c => cases hreset
  | consumeTotpStep n =>
    simp only [Call.apply, User.acceptTotpStep, User.consumeTotpStep] at h
    split at h
    · split at h
      · cases h; simp
      · split at h
        · cases h; simp
        · cases h
    · cases h
  | consumeRecoveryCode d =>
    simp only [Call.apply, User.consumeRecoveryCode] at h
    split at h
    · rename_i hmem
      cases h
      simp only [Call.consumeRecoveryCode.injEq, List.count_erase, beq_iff_eq]
      by_cases hd : d = digest
      · subst hd
        have hpos : 0 < u.recoveryCodeHashes.count d := List.count_pos_iff.mpr hmem
        simp only [if_true]
        omega
      · simp [hd]
    · cases h

/-- A call that does not touch the pending enrollment keeps it. -/
theorem pending_apply (h : c.apply backend now u = some u')
    (htouches : (Done.mk c true).touchesPending = false) :
    u'.pendingTotpSecret = u.pendingTotpSecret := by
  cases c with
  | beginTotpEnrollment pendingSecret => cases htouches
  | confirmTotpEnrollment e => cases htouches
  | configureTotp c =>
    cases h
    simp only [Done.touchesPending, Bool.true_and, Bool.not_eq_false'] at htouches
    simp [User.configureTotp, htouches]
  | consumeTotpStep n =>
    simp only [Call.apply, User.acceptTotpStep, User.consumeTotpStep] at h
    split at h
    · split at h
      · cases h; rfl
      · split at h
        · cases h; rfl
        · cases h
    · cases h
  | consumeRecoveryCode d =>
    simp only [Call.apply, User.consumeRecoveryCode] at h
    split at h
    · cases h; rfl
    · cases h

/-- After a call that touches the pending enrollment there is none, or the one that the
call has begun. -/
theorem pending_of_touches (h : c.apply backend now u = some u')
    (htouches : (Done.mk c true).touchesPending = true) {secret : String}
    (hpending : u'.pendingTotpSecret = some secret) : c = .beginTotpEnrollment secret := by
  cases c with
  | beginTotpEnrollment pendingSecret =>
    cases h
    cases hpending
    rfl
  | confirmTotpEnrollment e =>
    simp only [Call.apply, User.confirmTotpEnrollment] at h
    split at h
    · cases h
      cases hpending
    · cases h
  | configureTotp c =>
    cases h
    simp only [Done.touchesPending, Bool.true_and, Bool.not_eq_true'] at htouches
    simp [User.configureTotp, htouches] at hpending
  | consumeTotpStep n => cases htouches
  | consumeRecoveryCode d => cases htouches

end Apply

/-! ## Runs -/

theorem returned_append (h : List (Event × Option Done)) (e : Event) (o : Option Done) :
    returned (h ++ [(e, o)]) = returned h ++ o.toList := by
  cases o <;> simp [returned]

/-- A place in a history that has grown by one is the last one, or it was there before. -/
theorem split_snoc {α : Type} {past a b : List α} {d x : α} (h : past ++ [d] = a ++ x :: b) :
    (past = a ∧ d = x ∧ b = []) ∨ ∃ b', past = a ++ x :: b' ∧ b = b' ++ [d] := by
  rcases List.eq_nil_or_concat b with rfl | ⟨b, y, rfl⟩
  · obtain ⟨hpast, hlast⟩ := List.append_inj' h rfl
    exact .inl ⟨hpast, List.head_eq_of_cons_eq hlast, rfl⟩
  · rw [List.concat_eq_append] at h ⊢
    have h' : past ++ [d] = (a ++ x :: b) ++ [y] := by simpa using h
    obtain ⟨hpast, hlast⟩ := List.append_inj' h' rfl
    exact .inr ⟨b, hpast, by rw [hlast]⟩

/-- The TOTP steps recorded since the last reset increase, and the last one is stored. -/
structure Increasing (u : User) (past : List Done) : Prop where
  stored : ∀ {a x b m}, past = a ++ x :: b → x.recorded? = some m →
    (∀ d ∈ b, d.isReset = false) → ∃ l, u.lastTotpStep = some l ∧ m ≤ l
  increasing : ∀ {a x b y c m n}, past = a ++ x :: (b ++ y :: c) → x.recorded? = some m →
    (∀ d ∈ b, d.isReset = false) → y.isReset = false → y.recorded? = some n → m < n

theorem Increasing.append {u u' : User} {past : List Done} (hp : Increasing u past) {d : Done}
    (h : Effect backend u (some d) u') : Increasing u' (past ++ [d]) := by
  constructor
  case stored =>
    intro a x b m hsplit hrecorded hreset
    rcases split_snoc hsplit with ⟨-, rfl, rfl⟩ | ⟨b, hpast, rfl⟩
    · cases h with
      | failed c => cases c <;> cases hrecorded
      | applied happly => exact ⟨m, lastTotpStep_of_recorded happly hrecorded, Int.le_refl m⟩
    · obtain ⟨l, hl, hle⟩ := hp.stored hpast hrecorded fun z hz => hreset z (by simp [hz])
      have hd := hreset d (by simp)
      cases h with
      | failed c => exact ⟨l, hl, hle⟩
      | @applied c _ _ happly =>
        have hstep := lastTotpStep_apply happly hd
        cases c with
        | consumeTotpStep n =>
          exact ⟨n, hstep.2, Int.le_of_lt (Int.lt_of_le_of_lt hle (hstep.1 l hl))⟩
        | beginTotpEnrollment _ => exact ⟨l, hstep.trans hl, hle⟩
        | consumeRecoveryCode _ => exact ⟨l, hstep.trans hl, hle⟩
        | confirmTotpEnrollment _ => cases hd
        | configureTotp _ => cases hd
  case increasing =>
    intro a x b y c m n hsplit hx hreset hy hn
    rw [show a ++ x :: (b ++ y :: c) = (a ++ x :: b) ++ y :: c by simp] at hsplit
    rcases split_snoc hsplit with ⟨hpast, rfl, -⟩ | ⟨c, hpast, rfl⟩
    · obtain ⟨l, hl, hle⟩ := hp.stored hpast hx hreset
      cases h with
      | failed c => cases c <;> cases hn
      | @applied c _ _ happly =>
        have hstep := lastTotpStep_apply happly hy
        cases c with
        | consumeTotpStep k =>
          cases hn
          exact Int.lt_of_le_of_lt hle (hstep.1 l hl)
        | beginTotpEnrollment _ => cases hn
        | consumeRecoveryCode _ => cases hn
        | confirmTotpEnrollment _ => cases hy
        | configureTotp _ => cases hn
    · exact hp.increasing (by simpa using hpast) hx hreset hy hn

/-- The pending enrollment is the one that was begun last, or it was there from the start. -/
def Pending (initial : User) (past : List Done) (secret : String) : Prop :=
  (∃ a b, past = a ++ ⟨.beginTotpEnrollment secret, true⟩ :: b ∧
      ∀ d ∈ b, d.touchesPending = false) ∨
    (initial.pendingTotpSecret = some secret ∧ ∀ d ∈ past, d.touchesPending = false)

/-- The pending enrollment comes from the history, and so did that of every confirmation. -/
structure Enrolled (initial u : User) (past : List Done) : Prop where
  pending : ∀ {secret}, u.pendingTotpSecret = some secret → Pending initial past secret
  confirmed : ∀ {a e b}, past = a ++ ⟨.confirmTotpEnrollment e, true⟩ :: b →
    Pending initial a e.pendingSecret

theorem Pending.append {initial : User} {past : List Done} {secret : String}
    (h : Pending initial past secret) {d : Done} (hd : d.touchesPending = false) :
    Pending initial (past ++ [d]) secret := by
  rcases h with ⟨a, b, rfl, hb⟩ | ⟨hinitial, hpast⟩
  · refine .inl ⟨a, b ++ [d], by simp, fun x hx => ?_⟩
    rcases List.mem_append.mp hx with hx | hx
    · exact hb x hx
    · rw [List.mem_singleton.mp hx, hd]
  · refine .inr ⟨hinitial, fun x hx => ?_⟩
    rcases List.mem_append.mp hx with hx | hx
    · exact hpast x hx
    · rw [List.mem_singleton.mp hx, hd]

theorem Enrolled.append {initial u u' : User} {past : List Done} (hp : Enrolled initial u past)
    {d : Done} (h : Effect backend u (some d) u') : Enrolled initial u' (past ++ [d]) := by
  constructor
  case pending =>
    intro secret hsecret
    cases h with
    | failed c => exact (hp.pending hsecret).append rfl
    | @applied c _ _ happly =>
      cases htouches : (Done.mk c true).touchesPending with
      | false => exact (hp.pending (by rw [← pending_apply happly htouches, hsecret])).append htouches
      | true =>
        cases pending_of_touches happly htouches hsecret
        exact .inl ⟨past, [], rfl, by simp⟩
  case confirmed =>
    intro a e b hsplit
    rcases split_snoc hsplit with ⟨rfl, rfl, -⟩ | ⟨b, hpast, -⟩
    · cases h with
      | applied happly =>
        simp only [Call.apply, User.confirmTotpEnrollment] at happly
        split at happly
        · rename_i hpending
          exact hp.pending hpending.2.1
        · cases happly
    · exact hp.confirmed hpast

/-- What every step keeps about the account and its history, a run keeps. -/
theorem history_run {I : User → List Done → Prop}
    (hI : ∀ {u u' past d}, I u past → Effect backend u (some d) u' → I u' (past ++ [d]))
    (hs : s.Consistent) (h : Run (step backend) Always s tr s') (h0 : I s.user []) :
    I s'.user (returned tr) := by
  refine (h.history (I := fun s past => s.Consistent ∧ I s.user (returned past)) ?_ ⟨hs, h0⟩).2
  rintro s past e s' o ⟨hs, hpast⟩ - hstep
  obtain ⟨heffect, hs'⟩ := step_user hs hstep
  refine ⟨hs', ?_⟩
  rw [returned_append]
  cases o with
  | none =>
    generalize s'.user = u' at heffect ⊢
    cases heffect
    simpa using hpast
  | some d => exact hI hpast heffect

/-- The codes that are left and the codes that were accepted are those of the start. -/
theorem count_run (hs : s.Consistent) (h : Run (step backend) Always s tr s') (digest : String)
    (hreset : ∀ d ∈ returned tr, d.isReset = false) :
    s'.user.recoveryCodeHashes.count digest +
        (returned tr).count ⟨.consumeRecoveryCode digest, true⟩ =
      s.user.recoveryCodeHashes.count digest := by
  refine history_run (I := fun u past => (∀ d ∈ past, d.isReset = false) →
    u.recoveryCodeHashes.count digest + past.count ⟨.consumeRecoveryCode digest, true⟩ =
      s.user.recoveryCodeHashes.count digest) ?_ hs h (fun _ => by simp) hreset
  intro u u' past d hpast heffect hreset
  have hbefore := hpast fun x hx => hreset x (List.mem_append_left _ hx)
  have hd := hreset d (by simp)
  rw [List.count_append]
  cases heffect with
  | failed c => simpa using hbefore
  | @applied c _ _ happly =>
    have hcount := count_apply happly hd digest
    by_cases hc : c = .consumeRecoveryCode digest
    · subst hc
      simp only [if_true] at hcount
      simp only [List.count_cons_self, List.count_nil]
      omega
    · rw [if_neg hc] at hcount
      simp only [List.count_singleton, beq_iff_eq, Done.mk.injEq, and_true, hc, if_false]
      omega

/-! ## The law -/

/-- **One-use of the second factor**, over all runs on an account. -/
structure OneUse (backend : Backend) (clock : Instant) (user : User) : Prop where
  /-- Between two resets the TOTP steps increase, the one of the enrollment included. -/
  steps : ∀ {tr s'}, Run (step backend) Always (.initial clock user) tr s' →
    ∀ {a x b y c m n}, returned tr = a ++ x :: (b ++ y :: c) → x.recorded? = some m →
      (∀ d ∈ b, d.isReset = false) → y.isReset = false → y.recorded? = some n → m < n
  /-- Without a reset, a code leaves the list when it is accepted, and nothing else happens
  to the list. -/
  codes : ∀ {tr₁ s₁ tr₂ s₂}, Run (step backend) Always (.initial clock user) tr₁ s₁ →
    Run (step backend) Always s₁ tr₂ s₂ → (∀ d ∈ returned tr₂, d.isReset = false) →
      ∀ digest, s₂.user.recoveryCodeHashes.count digest +
        (returned tr₂).count ⟨.consumeRecoveryCode digest, true⟩ =
          s₁.user.recoveryCodeHashes.count digest
  /-- A confirmation is one of the enrollment begun last, which was not confirmed before. -/
  enrollments : ∀ {tr s'}, Run (step backend) Always (.initial clock user) tr s' →
    ∀ {a e b}, returned tr = a ++ ⟨.confirmTotpEnrollment e, true⟩ :: b →
      Pending user a e.pendingSecret

theorem factor_one_use (backend : Backend) (clock : Instant) (user : User) :
    OneUse backend clock user := by
  have hinitial : (State.initial clock user).Consistent := trivial
  constructor
  case steps =>
    intro tr s' h a x b y c m n hsplit hx hreset hy hn
    have hhistory : Increasing s'.user (returned tr) :=
      history_run (fun hp heffect => hp.append heffect) hinitial h
        ⟨fun hsplit => by simp at hsplit, fun hsplit => by simp at hsplit⟩
    exact hhistory.increasing hsplit hx hreset hy hn
  case codes =>
    intro tr₁ s₁ tr₂ s₂ h₁ h₂ hreset digest
    exact count_run (consistent_run hinitial h₁) h₂ digest hreset
  case enrollments =>
    intro tr s' h a e b hsplit
    have hhistory : Enrolled user s'.user (returned tr) :=
      history_run (fun hp heffect => hp.append heffect) hinitial h
        ⟨fun hsecret => .inr ⟨hsecret, by simp⟩, fun hsplit => by simp at hsplit⟩
    exact hhistory.confirmed hsplit

end AuthMe.Store.Factor

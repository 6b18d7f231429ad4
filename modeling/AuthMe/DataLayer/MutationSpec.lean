import AuthMe.DataLayer.Development

/-!
# What the programs of the data layer do

`Performs` says what a request has done when it performs an operation: `restoreUser` writes back
what the first operation has read, while `mutate` has used methods of the store only, and
`recreateUser` puts back the user that the call has deleted. `Returns` says what a request has
done when it returns. Both hold whatever the answers are (`layer_spec`).
-/

namespace AuthMe.DataLayer

open Service Store

abbrev Log := List (Entry operations State)

/-! ## Facts that a log shows -/

def Op.isStore : Op → Bool
  | .store _ => true
  | _ => false

/-- The call has done nothing but use methods of the store. -/
def StoreOnly (log : Log) : Prop := ∀ x ∈ log, x.op.isStore = true

/-- The first operation has read the account. -/
def ReadFirst (key : UserKey) (user : User) (log : Log) : Prop :=
  ∃ before after, log.getLast? =
    some (⟨.store (.findUserById key), some user, before, after⟩ : Entry operations State)

theorem ReadFirst.cons {key : UserKey} {user : User} {log : Log} (h : ReadFirst key user log)
    (x : Entry operations State) : ReadFirst key user (x :: log) := by
  obtain ⟨before, after, hlast⟩ := h
  exact ⟨before, after, by rw [List.getLast?_cons, hlast]; rfl⟩

/-- A `deleteAccount` that is over: its audit event is written, or its user is back. -/
def Op.endsDeletion : Op → Bool
  | .recreateUser _ | .revokeMemoryAccount _ => true
  | _ => false

/-- The call has deleted the user, and has not come to an end with it. -/
structure Holds (key : UserKey) (user : User) (log : Log) : Prop where
  deleted : Answered log (.deleteUser key) (some user)
  pending : ∀ x ∈ log, x.op.endsDeletion = false

/-- Writing to the audit store is not the end of it. -/
theorem Holds.cons_writeAudit {key : UserKey} {user : User} {log : Log} (h : Holds key user log)
    (written : Bool) (before after : State) :
    Holds key user (⟨.store .writeAudit, written, before, after⟩ :: log) := by
  refine ⟨h.deleted.there, fun x hx => ?_⟩
  rcases List.mem_cons.mp hx with rfl | hx
  · rfl
  · exact h.pending x hx

/-- The passkeys were deleted one after the other, from the log `start` on. -/
inductive Deletes (key : UserKey) (start : Log) : List Credential → Log → Prop
  | nil : Deletes key start [] start
  | snoc {cs : List Credential} {log : Log} {c : Credential} {res : Option Credential}
      {before after : State} (h : Deletes key start cs log) :
      Deletes key start (cs ++ [c])
        (⟨.store (.deleteWebAuthnCredential key c.id), res, before, after⟩ :: log)

/-- The passkeys were created one after the other, from the log `start` on. -/
inductive Creates (start : Log) : List Credential → Log → Prop
  | nil : Creates start [] start
  | snoc {cs : List Credential} {log : Log} {c : Credential} {res : Creation}
      {before after : State} (h : Creates start cs log) (hres : res ≠ .alreadyRegistered) :
      Creates start (cs ++ [c])
        (⟨.store (.createWebAuthnCredential c), res, before, after⟩ :: log)

/-- The last passkey that was to be created is registered for another account. -/
def CutShort (log : Log) : Prop :=
  ∃ c before after rest, log = ⟨.store (.createWebAuthnCredential c), .alreadyRegistered, before,
    after⟩ :: rest

/-- The passkeys of the account were listed, deleted, and those of the snapshot created. -/
structure PasskeysRestored (key : UserKey) (snapshot : List Credential) (start log : Log) : Prop where
  steps : ∃ current deleted before after,
    Deletes key (⟨.store (.listWebAuthnCredentials key), current, before, after⟩ :: start)
      current deleted ∧ Creates deleted snapshot log

/-- The call has read the account and its passkeys, used methods of the store, and then written
back what it had read. -/
structure WrittenBack (key : UserKey) (log : Log) : Prop where
  steps : ∃ user snapshot body before after before' after' before'' after'',
    StoreOnly body ∧
    PasskeysRestored key snapshot
      (⟨.restoreUser user, (), before'', after''⟩ ::
        (body ++ [⟨.store (.listWebAuthnCredentials key), snapshot, before', after'⟩,
          ⟨.store (.findUserById key), some user, before, after⟩])) log

/-! ## The specification -/

/-- When a call performs an operation. -/
def Performs (request : Request) (log : Log) : Op → Prop
  | .store _ => True
  | .restoreUser user => StoreOnly log ∧
    ∃ key mutate, request = .mutateAccountSecurity key mutate ∧ ReadFirst key user log
  | .bumpSecurityVersion key => ∃ mutate, request = .mutateAccountSecurity key mutate
  | .deleteUser key => (∃ audited, request = .deleteAccount key audited) ∧
    ∀ x ∈ log, x.op.endsDeletion = false
  | .recreateUser user => ∃ key audited, request = .deleteAccount key audited ∧ Holds key user log
  | .createUser user => request = .createUser user
  | .findAdminGrant _ | .restoreAdminGrant .. | .revokeMemoryAccount _ => True

/-- What a call has done when it returns. -/
def Returns (request : Request) (log : Log) (result : Result) : Prop :=
  match request, result with
  | .mutateAccountSecurity key _, .threw _ => WrittenBack key log ∨ CutShort log
  | .deleteAccount key _, .deleted user => ∃ x log', log = x :: log' ∧ x.op = .revokeMemoryAccount key ∧
    Holds key user log'
  | _, _ => True

variable {R : Entry operations State → Prop} {request : Request} {log : Log}

/-- Methods of the store keep what is known of a log, if every one of them does. -/
theorem onStore_obeys {α : Type} {Q : Log → α → Prop} {J : Log → Prop}
    (hJ : ∀ log (op : StoreOp) (res : op.Res) before after, J log →
      J ((⟨.store op, res, before, after⟩ : Entry operations State) :: log))
    (hQ : ∀ log a, J log → Q log a) (p : Program storeMethods α) (h : J log) :
    (onStore p).Obeys R (Performs request) Q log := by
  induction p generalizing log with
  | done a => exact hQ log a h
  | await op next ih =>
    exact ⟨trivial, fun res before after _ => ih res (hJ log op res before after h)⟩

theorem deleteAll_obeys {key : UserKey} {start : Log} {done : List Credential}
    (cs : List Credential) (h : Deletes key start done log) :
    (deleteAll key cs).Obeys R (Performs request)
      (fun log _ => Deletes key start (done ++ cs) log) log := by
  induction cs generalizing done log with
  | nil => simpa [deleteAll] using h
  | cons c cs ih =>
    refine ⟨trivial, fun res before after _ => ?_⟩
    have hstep : Deletes key start (done ++ [c])
        (⟨.store (.deleteWebAuthnCredential key c.id), res, before, after⟩ :: log) := .snoc h
    simpa using ih hstep

theorem createAll_obeys {start : Log} {done : List Credential} (cs : List Credential)
    (h : Creates start done log) :
    (createAll cs).Obeys R (Performs request)
      (fun log ok => match ok with
        | true => Creates start (done ++ cs) log
        | false => CutShort log) log := by
  induction cs generalizing done log with
  | nil => simpa [createAll] using h
  | cons c cs ih =>
    refine ⟨trivial, fun res before after _ => ?_⟩
    cases res with
    | alreadyRegistered => exact ⟨c, before, after, log, rfl⟩
    | userMissing =>
      have hstep : Creates start (done ++ [c])
          (⟨.store (.createWebAuthnCredential c), .userMissing, before, after⟩ :: log) :=
        .snoc h Creation.noConfusion
      simpa using ih hstep
    | created =>
      have hstep : Creates start (done ++ [c])
          (⟨.store (.createWebAuthnCredential c), .created, before, after⟩ :: log) :=
        .snoc h Creation.noConfusion
      simpa using ih hstep

theorem restorePasskeys_obeys (key : UserKey) (snapshot : List Credential) :
    (restoreMemoryWebAuthnCredentials key snapshot).Obeys R (Performs request)
      (fun log' ok => match ok with
        | true => PasskeysRestored key snapshot log log'
        | false => CutShort log') log := by
  unfold restoreMemoryWebAuthnCredentials
  rw [Program.perform_bind]
  refine ⟨trivial, fun current before after _ => ?_⟩
  refine Program.obeys_bind.mpr ((deleteAll_obeys current .nil).mono (fun _ _ h => h) ?_)
  intro deleted _ hdeleted
  refine (createAll_obeys snapshot .nil).mono (fun _ _ h => h) ?_
  intro log' ok hcreated
  cases ok with
  | true => exact ⟨current, deleted, before, after, hdeleted, hcreated⟩
  | false => exact hcreated

theorem mutateAccountSecurity_obeys (key : UserKey) (mutate : Program storeMethods Outcome) :
    (mutateAccountSecurity key mutate).Obeys R (Performs (.mutateAccountSecurity key mutate))
      (Returns (.mutateAccountSecurity key mutate)) [] := by
  unfold mutateAccountSecurity
  rw [Program.perform_bind]
  refine ⟨trivial, fun current before after _ => ?_⟩
  cases current with
  | none => trivial
  | some user =>
    dsimp only
    rw [Program.perform_bind]
    refine ⟨trivial, fun snapshot before' after' _ => ?_⟩
    -- what `mutate` does is in the part of the log above the two reads
    let J (log : Log) : Prop := ∃ body, StoreOnly body ∧ log =
      body ++ [⟨.store (.listWebAuthnCredentials key), snapshot, before', after'⟩,
        ⟨.store (.findUserById key), some user, before, after⟩]
    refine Program.obeys_bind.mpr (onStore_obeys (J := J) ?_ ?_ mutate ⟨[], by simp [StoreOnly], rfl⟩)
    · rintro _ op res b a ⟨body, hbody, rfl⟩
      refine ⟨_ :: body, ?_, rfl⟩
      intro x hx
      rcases List.mem_cons.mp hx with rfl | hx
      · rfl
      · exact hbody x hx
    · rintro _ outcome ⟨body, hbody, rfl⟩
      have hread : ReadFirst key user
          (body ++ [⟨.store (.listWebAuthnCredentials key), snapshot, before', after'⟩,
            ⟨.store (.findUserById key), some user, before, after⟩]) :=
        ⟨before, after, by simp⟩
      have hstore : StoreOnly
          (body ++ [⟨.store (.listWebAuthnCredentials key), snapshot, before', after'⟩,
            ⟨.store (.findUserById key), some user, before, after⟩]) := by
        intro x hx
        rcases List.mem_append.mp hx with hx | hx
        · exact hbody x hx
        · rcases List.mem_pair.mp hx with rfl | rfl
          · rfl
          · rfl
      cases outcome with
      | threw message =>
        dsimp only
        rw [Program.perform_bind]
        refine ⟨⟨hstore, key, mutate, rfl, hread⟩, fun _ before'' after'' _ => ?_⟩
        refine Program.obeys_bind.mpr ((restorePasskeys_obeys key snapshot).mono (fun _ _ h => h) ?_)
        intro log ok hok
        cases ok with
        | true =>
          exact .inl ⟨user, snapshot, body, before, after, before', after', before'', after'', hbody,
            hok⟩
        | false => exact .inr hok
      | returned result =>
        cases result with
        | false => exact ⟨trivial, fun _ _ _ _ => trivial⟩
        | true =>
          exact ⟨⟨mutate, rfl⟩, fun _ _ _ _ => ⟨trivial, fun _ _ _ _ =>
            ⟨trivial, fun _ _ _ _ => trivial⟩⟩⟩

theorem deleteAccount_obeys (key : UserKey) (audited : Bool) :
    (deleteAccount key audited).Obeys R (Performs (.deleteAccount key audited))
      (Returns (.deleteAccount key audited)) [] := by
  unfold deleteAccount
  refine ⟨trivial, fun credentials b₁ a₁ _ => ⟨trivial, fun grant b₂ a₂ _ => ?_⟩⟩
  have hpending : ∀ x ∈ ([⟨.findAdminGrant key, grant, b₂, a₂⟩,
      ⟨.store (.listWebAuthnCredentials key), credentials, b₁, a₁⟩] : Log),
      x.op.endsDeletion = false := by
    intro x hx
    rcases List.mem_pair.mp hx with rfl | rfl
    · rfl
    · rfl
  refine ⟨⟨⟨audited, rfl⟩, hpending⟩, fun user b₃ a₃ _ => ?_⟩
  cases user with
  | none => trivial
  | some user =>
    dsimp only
    have hdeleted : Holds key user (⟨.deleteUser key, some user, b₃, a₃⟩ ::
        [⟨.findAdminGrant key, grant, b₂, a₂⟩,
          ⟨.store (.listWebAuthnCredentials key), credentials, b₁, a₁⟩]) := by
      refine ⟨.here, fun x hx => ?_⟩
      rcases List.mem_cons.mp hx with rfl | hx
      · rfl
      · exact hpending x hx
    have hkept (log : Log) (hlog : Holds key user log) :
        (do Program.perform (I := operations) (.revokeMemoryAccount key)
            return .deleted user :
          Program operations Result).Obeys R (Performs (.deleteAccount key audited))
          (Returns (.deleteAccount key audited)) log :=
      ⟨trivial, fun _ _ _ _ => ⟨_, log, rfl, rfl, hlog⟩⟩
    cases audited with
    | false => exact hkept _ hdeleted
    | true =>
      refine ⟨trivial, fun written b a _ => ?_⟩
      have hlog := hdeleted.cons_writeAudit written b a
      cases written with
      | true => exact hkept _ hlog
      | false =>
        refine ⟨⟨key, true, rfl, hlog⟩, fun message b a _ => ?_⟩
        cases message with
        | some message => trivial
        | none =>
          have hrestore (log : Log) : (restoreMemoryWebAuthnCredentials key credentials >>= fun ok =>
              if ok then return .threw "audit"
              else return .threw "This passkey is already registered" :
              Program operations Result).Obeys R (Performs (.deleteAccount key true))
              (Returns (.deleteAccount key true)) log := by
            refine Program.obeys_bind.mpr ((restorePasskeys_obeys key credentials).mono
              (fun _ _ h => h) ?_)
            intro log' ok _
            cases ok with
            | true => trivial
            | false => trivial
          cases grant with
          | none => exact hrestore _
          | some grant => exact ⟨trivial, fun _ _ _ _ => hrestore _⟩

/-- The specification of the requests. -/
theorem layer_spec (cfg : Config) : Spec (layer cfg) Performs Returns := by
  constructor
  intro request
  cases request with
  | mutateAccountSecurity key mutate => exact mutateAccountSecurity_obeys key mutate
  | deleteAccount key audited => exact deleteAccount_obeys key audited
  | createUser user => exact ⟨rfl, fun _ _ _ _ => trivial⟩
  | methods p =>
    change (onStore p >>= fun _ => Program.done Result.done).Obeys _ _ _ _
    refine Program.obeys_bind.mpr (onStore_obeys (J := fun _ => True) ?_ ?_ p trivial)
    · exact fun _ _ _ _ _ _ => trivial
    · exact fun _ _ _ => trivial

end AuthMe.DataLayer

import AuthMe.Admin.Console

/-!
# What the console does with sessions

`Performs` and `Returns` say what the programs of the console have done when they perform
an operation and when they return, whatever the store answers and whatever happens between
two operations: `console_spec`. A session is only created by a callback, from what that
callback has read; its idle time is only moved to a time before the expiry that the call
has read; it is accepted only if everything that was read fits, and if it is not accepted
it was not there or it is deleted.
-/

namespace AuthMe.Admin

open Service Store Console
open Transition (Run Always)

abbrev Log := List (Entry operations State)

/-! ## What the operations obey -/

section

variable {α : Type} {R : Entry operations State → Prop} {P : Log → Op → Prop}
  {Q : Log → α → Prop} {log : Log}

@[simp] theorem obeys_now {f : Instant → Console α} :
    (now >>= f).Obeys R P Q log ↔ P log .now ∧ ∀ t before after,
      R ⟨Op.now, t, before, after⟩ → (f t).Obeys R P Q (⟨Op.now, t, before, after⟩ :: log) :=
  Iff.rfl

@[simp] theorem obeys_randomBytes {f : String → Console α} :
    (randomBytes >>= f).Obeys R P Q log ↔ P log .randomBytes ∧ ∀ value before after,
      R ⟨Op.randomBytes, value, before, after⟩ →
        (f value).Obeys R P Q (⟨Op.randomBytes, value, before, after⟩ :: log) :=
  Iff.rfl

@[simp] theorem obeys_findAdminSession {d : String} {f : Option AdminSession → Console α} :
    (findAdminSession d >>= f).Obeys R P Q log ↔ P log (.findAdminSession d) ∧
      ∀ found before after, R ⟨Op.findAdminSession d, found, before, after⟩ →
        (f found).Obeys R P Q (⟨Op.findAdminSession d, found, before, after⟩ :: log) :=
  Iff.rfl

@[simp] theorem obeys_findUserById {realm id : String} {f : Option User → Console α} :
    (findUserById realm id >>= f).Obeys R P Q log ↔ P log (.findUserById realm id) ∧
      ∀ found before after, R ⟨Op.findUserById realm id, found, before, after⟩ →
        (f found).Obeys R P Q (⟨Op.findUserById realm id, found, before, after⟩ :: log) :=
  Iff.rfl

@[simp] theorem obeys_findAdminGrant {realm userId : String}
    {f : Option AdminGrant → Console α} :
    (findAdminGrant realm userId >>= f).Obeys R P Q log ↔ P log (.findAdminGrant realm userId) ∧
      ∀ found before after, R ⟨Op.findAdminGrant realm userId, found, before, after⟩ →
        (f found).Obeys R P Q (⟨Op.findAdminGrant realm userId, found, before, after⟩ :: log) :=
  Iff.rfl

@[simp] theorem obeys_createAdminSession {s : AdminSession}
    {f : Option AdminSession → Console α} :
    (createAdminSession s >>= f).Obeys R P Q log ↔ P log (.createAdminSession s) ∧
      ∀ created before after, R ⟨Op.createAdminSession s, created, before, after⟩ →
        (f created).Obeys R P Q (⟨Op.createAdminSession s, created, before, after⟩ :: log) :=
  Iff.rfl

@[simp] theorem obeys_touchAdminSession {d : String} {idle : Int}
    {f : Option AdminSession → Console α} :
    (touchAdminSession d idle >>= f).Obeys R P Q log ↔ P log (.touchAdminSession d idle) ∧
      ∀ touched before after, R ⟨Op.touchAdminSession d idle, touched, before, after⟩ →
        (f touched).Obeys R P Q (⟨Op.touchAdminSession d idle, touched, before, after⟩ :: log) :=
  Iff.rfl

@[simp] theorem obeys_deleteAdminSession {d : String} {f : Unit → Console α} :
    (deleteAdminSession d >>= f).Obeys R P Q log ↔ P log (.deleteAdminSession d) ∧
      ∀ u before after, R ⟨Op.deleteAdminSession d, u, before, after⟩ →
        (f u).Obeys R P Q (⟨Op.deleteAdminSession d, u, before, after⟩ :: log) :=
  Iff.rfl

@[simp] theorem obeys_writeAudit {f : Bool → Console α} :
    (writeAudit >>= f).Obeys R P Q log ↔ P log .writeAudit ∧ ∀ written before after,
      R ⟨Op.writeAudit, written, before, after⟩ →
        (f written).Obeys R P Q (⟨Op.writeAudit, written, before, after⟩ :: log) :=
  Iff.rfl

end

/-! ## What the programs do -/

/-- The session is that of a login: the call serves a callback, and the session is made from
what the call has read, an enabled user and an enabled grant, and a fresh value. -/
structure Login (cfg : Config) (request : Request) (log : Log) (session : AdminSession)
    (realm : String) (claims : Claims) (user : User) (grant : AdminGrant) (value : String) :
    Prop where
  callback : ∃ previous, request = .callback realm claims previous
  session : ∃ authTime now seen,
    session = newSession cfg realm user grant authTime value now seen
  readUser : Answered log (Op.findUserById realm claims.sub) (some user)
  readGrant : Answered log (Op.findAdminGrant realm user.id) (some grant)
  enabled : user.enabled = true ∧ grant.enabled = true
  fresh : Answered log Op.randomBytes value

/-- When a call performs an operation. -/
def Performs (cfg : Config) (request : Request) (log : Log) : Op → Prop
  | .createAdminSession session =>
    (∃ realm claims user grant value, Login cfg request log session realm claims user grant value) ∧
      ∀ x ∈ log, ∀ s, x.op ≠ .createAdminSession s
  | .touchAdminSession digest idleExpiresAt => ∃ session,
    Answered log (Op.findAdminSession digest) (some session) ∧
      idleExpiresAt ≤ session.expiresAt
  | _ => True

/-- The call has accepted the session of a cookie. -/
structure Accepts (cfg : Config) (sessionValue : Option String) (log : Log)
    (result : Authentication) (value : String) (session : AdminSession) (now : Instant) :
    Prop where
  cookie : sessionValue.filter isSessionValue = some value ∧
    result.sessionDigest = cfg.sessionDigest value
  found : Answered log (Op.findAdminSession (cfg.sessionDigest value)) (some session)
  time : Answered log Op.now now ∧ now.ms < session.expiresAt ∧ now.ms < session.idleExpiresAt
  realm : session.realm ∈ cfg.realms ∧ result.realm = session.realm
  readUser : Answered log (Op.findUserById session.realm session.userId) (some result.user)
  readGrant : Answered log (Op.findAdminGrant session.realm session.userId) (some result.grant)
  upToDate : upToDate session result.user result.grant = true

/-- The call has rejected the session of a cookie: the cookie is malformed, the session
was not there, or the call has deleted it. -/
def Rejects (cfg : Config) (sessionValue : Option String) (log : Log) : Prop :=
  sessionValue.filter isSessionValue = none ∨ ∃ value, sessionValue = some value ∧
    (Answered log (Op.findAdminSession (cfg.sessionDigest value)) none ∨
      Answered log (Op.deleteAdminSession (cfg.sessionDigest value)) ())

/-- What `authenticate` has done when it returns. -/
def Authenticates (cfg : Config) (sessionValue : Option String) (log : Log) :
    Option Authentication → Prop
  | none => Rejects cfg sessionValue log
  | some result => ∃ value session now, Accepts cfg sessionValue log result value session now

/-- What a call has done when it returns. -/
def Returns (cfg : Config) (request : Request) (log : Log) (reply : Reply) : Prop :=
  ∀ value result, request = .authenticate value → reply = .authentication result →
    Authenticates cfg value log result

theorem authenticate_obeys {R : Entry operations State → Prop} (cfg : Config)
    (request : Request) (sessionValue : Option String) :
    (authenticate cfg sessionValue).Obeys R (Performs cfg request)
      (Authenticates cfg sessionValue) [] := by
  unfold authenticate
  cases hv : sessionValue.filter isSessionValue with
  | none => exact .inl hv
  | some value =>
    have hvalue : sessionValue = some value := (Option.filter_eq_some_iff.mp hv).1
    have hdelete : ∀ {log : Log}, (do
        deleteAdminSession (cfg.sessionDigest value)
        return none : Console (Option Authentication)).Obeys R (Performs cfg request)
          (Authenticates cfg sessionValue) log := by
      intro log
      simp only [obeys_deleteAdminSession]
      exact ⟨trivial, fun _ _ _ _ => .inr ⟨value, hvalue, .inr .here⟩⟩
    simp only [obeys_findAdminSession, obeys_now]
    refine ⟨trivial, fun found _ _ _ => ⟨trivial, fun now _ _ _ => ?_⟩⟩
    cases found with
    | none => exact .inr ⟨value, hvalue, .inl (.there .here)⟩
    | some session =>
      dsimp only
      split
      · rename_i hlive
        simp only [obeys_findUserById, obeys_findAdminGrant]
        refine ⟨trivial, fun user _ _ _ => ⟨trivial, fun grant _ _ _ => ?_⟩⟩
        cases user with
        | none => exact hdelete
        | some user =>
          cases grant with
          | none => exact hdelete
          | some grant =>
            dsimp only
            split
            · rename_i hdate
              have hrealm : session.realm ∈ cfg.realms := by simpa using hlive.1
              split
              · simp only [obeys_touchAdminSession]
                refine ⟨⟨session, .there (.there (.there .here)), Int.min_le_right _ _⟩,
                  fun touched _ _ _ => ⟨value, session, now, ⟨hv, rfl⟩, ?_, ⟨?_, hlive.2⟩,
                    ⟨hrealm, rfl⟩, ?_, ?_, hdate⟩⟩
                · exact .there (.there (.there (.there .here)))
                · exact .there (.there (.there .here))
                · exact .there (.there .here)
                · exact .there .here
              · refine ⟨value, session, now, ⟨hv, rfl⟩, ?_, ⟨?_, hlive.2⟩, ⟨hrealm, rfl⟩,
                  ?_, ?_, hdate⟩
                · exact .there (.there (.there .here))
                · exact .there (.there .here)
                · exact .there .here
                · exact .here
            · exact hdelete
      · exact hdelete

theorem callback_obeys {R : Entry operations State → Prop} (cfg : Config) (realm : String)
    (claims : Claims) (previous : Option String) :
    (callback cfg realm claims previous).Obeys R
      (Performs cfg (.callback realm claims previous)) (fun _ _ => True) [] := by
  have hdelete : ∀ {digest : String} {result : Option String} {log : Log}, (do
      deleteAdminSession digest
      return result : Console (Option String)).Obeys R
        (Performs cfg (.callback realm claims previous)) (fun _ _ => True) log := by
    intro digest result log
    simp only [obeys_deleteAdminSession]
    exact ⟨trivial, fun _ _ _ _ => trivial⟩
  unfold callback
  simp only [obeys_findUserById]
  refine ⟨trivial, fun user _ _ _ => ?_⟩
  cases user with
  | none => trivial
  | some user =>
    simp only [obeys_findAdminGrant, obeys_now]
    refine ⟨trivial, fun grant _ _ _ => ⟨trivial, fun checked _ _ _ => ?_⟩⟩
    split
    · rename_i grant authTime _ _
      split
      · rename_i hallowed
        simp only [Bool.and_eq_true] at hallowed
        simp only [obeys_now, obeys_randomBytes, obeys_createAdminSession]
        refine ⟨trivial, fun now _ _ _ => ⟨trivial, fun value _ _ _ => ⟨trivial, fun seen _ _ _ =>
          ⟨⟨⟨realm, claims, user, grant, value, ⟨previous, rfl⟩, ⟨authTime, now, seen, rfl⟩,
            ?_, ?_, hallowed.1.1, .there .here⟩, by simp⟩, fun created _ _ _ => ?_⟩⟩⟩⟩
        · exact .there (.there (.there (.there (.there .here))))
        · exact .there (.there (.there (.there .here)))
        cases created with
        | none => exact hdelete
        | some session =>
          simp only [obeys_writeAudit]
          refine ⟨trivial, fun written _ _ _ => ?_⟩
          split
          · split
            · trivial
            · split
              · trivial
              · exact hdelete
          · exact hdelete
      · trivial
    · trivial

/-- The programs of the console do what is expected of them. -/
theorem console_spec (cfg : Config) :
    Spec (console cfg) (Performs cfg) (Returns cfg) := by
  refine ⟨fun r => ?_⟩
  cases r with
  | authenticate value =>
    refine Program.obeys_bind.mpr ((authenticate_obeys cfg _ value).mono (fun _ _ h => h) ?_)
    rintro log result h _ _ ⟨⟩ ⟨⟩
    exact h
  | callback realm claims previous =>
    refine Program.obeys_bind.mpr ((callback_obeys cfg realm claims previous).mono
      (fun _ _ h => h) ?_)
    rintro log result - _ _ ⟨⟩
  | logout value csrf =>
    refine Program.obeys_bind.mpr (Program.obeys_bind.mpr
      ((authenticate_obeys cfg _ value).mono (fun _ _ h => h) ?_))
    intro log result _
    cases result with
    | none => rintro _ _ ⟨⟩
    | some result =>
      dsimp only
      split
      · simp only [obeys_deleteAdminSession, obeys_writeAudit]
        refine ⟨trivial, fun _ _ _ _ => ⟨trivial, fun _ _ _ _ => ?_⟩⟩
        rintro _ _ ⟨⟩
      · rintro _ _ ⟨⟩

end AuthMe.Admin

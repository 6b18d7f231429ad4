import AuthMe.Passwords.Requests
import AuthMe.Scim.Filter
import AuthMe.Scim.NoOp
import AuthMe.Scim.Transactions
import AuthMe.Service.Conditional
import AuthMe.Service.Fallible

/-!
# The SCIM routes

The handlers of `src/src/scim/router.js` for one resource, as programs that wait for the operations
of a repository. The handlers of Users and of Groups differ in the operations and in the
normalisation, and in the order of two awaits after a creation. How a repository reads is a
parameter: one reads a Group by one operation, the other by two.
-/

namespace AuthMe.Scim.Routes

open Service (Interface Program Entry Fallible)
open Passwords (replacementBody)

/-! ## Operations -/

abbrev Attributes : ResourceType → Type
  | .user => User
  | .group => Group

/-- What `getUser` and `getGroup` return. -/
structure Record (k : ResourceType) where
  attributes : Attributes k
  id : Uuid
  version : Nat

/-- Why an operation fails. -/
inductive Failure
  | scim (error : Error)
  | repository (error : ScimError)
  /-- any other error -/
  | other

/-- The operations of a repository in the realm of the request, and the callback `audit`. -/
inductive Op
  | get (k : ResourceType) (id : String)
  /-- `SELECT * FROM scim_groups ...` -/
  | groupRow (id : String)
  /-- `SELECT user_id::text FROM scim_group_members ...` -/
  | memberRows (id : String)
  | create (k : ResourceType) (attributes : Attributes k)
  | replace (k : ResourceType) (id : String) (attributes : Attributes k) (expectedVersion : Nat)
  | delete (k : ResourceType) (id : String) (expectedVersion : Nat)
  | listUserGroups (userId : String)
  | audit (type resourceType resourceId : String)

/-- A User's Group, or a Group's member: the value and what is displayed. -/
structure Link where
  value : String
  display : Option String

def Op.Answer : Op → Type
  | .get k _ => Option (Record k)
  | .groupRow _ => Option GroupRow
  | .memberRows _ => List String
  | .create k _ | .replace k _ _ _ | .delete k _ _ => Option (Record k)
  | .listUserGroups _ => List Link
  | .audit _ _ _ => Unit

def Op.isWrite : Op → Bool
  | .create _ _ | .replace _ _ _ _ | .delete _ _ _ => true
  | _ => false

abbrev operations : Interface := ⟨Op, fun op => Except Failure op.Answer⟩

abbrev Handler (α : Type) : Type := Fallible operations Failure α

def ask (op : Op) : Handler op.Answer := ExceptT.mk (Program.perform (I := operations) op)

/-! ## Requests and replies -/

inductive Method
  | post | get | put | patch | delete
  deriving DecidableEq

structure Request where
  method : Method
  resourceType : ResourceType
  id : String
  ifMatch : Option String
  ifNoneMatch : Option String
  body : Value

inductive Reply
  | resource (status : Nat) (k : ResourceType) (record : Record k) (links : List Link)
  | notModified
  | noContent
  | failed (status : Nat) (detail : String) (scimType : Option String)

/-- `repositoryError`, and then the error handler of the router. -/
def Failure.reply : Failure → Reply
  | .scim (.scim status detail scimType) => .failed status detail scimType
  | .repository (.repository .notFound message) => .failed 404 message none
  | .repository (.repository .uniqueness message) => .failed 409 message (some "uniqueness")
  | .repository (.repository .versionMismatch message) => .failed 412 message none
  | .repository (.repository .invalidValue message) => .failed 400 message (some "invalidValue")
  | _ => .failed 500 "The SCIM request could not be completed." none

/-- `tokens(header)`. -/
def tokens (header : Option String) : List String :=
  (((header.getD "").toList.splitOn ',').map fun value => Text.trim (String.ofList value)).filter
    (· ≠ "")

/-- `etag(record)`. -/
def etag (version : Nat) : String := "W/\"" ++ toString version ++ "\""

def matchesVersion (ifMatch : Option String) (version : Nat) : Bool :=
  tokens ifMatch = [] || "*" ∈ tokens ifMatch || etag version ∈ tokens ifMatch

/-- `checkIfMatch(req, record)`. -/
def checkIfMatch (r : Request) (version : Nat) : Handler Unit :=
  if matchesVersion r.ifMatch version then pure ()
  else throw (.scim (.scim 412
    "The If-Match version does not match the current SCIM resource." none))

/-- `conditionalGet(req, res, record)`. -/
def conditionalGet (r : Request) (version : Nat) : Bool :=
  "*" ∈ tokens r.ifNoneMatch || etag version ∈ tokens r.ifNoneMatch

/-- The request names the version `v`, and where the resource has the version `v'` it is answered with
304, or its `If-Match` is met. -/
def Passes (r : Request) (v v' : Nat) : Prop :=
  tokens r.ifNoneMatch = [etag v] ∧ conditionalGet r v' = true ∨
    tokens r.ifMatch = [etag v] ∧ matchesVersion r.ifMatch v' = true

theorem etag_injective {v v' : Nat} (h : etag v = etag v') : v = v' := by
  have hlist := congrArg String.toList h
  simp only [etag, String.toList_append, List.append_assoc, List.append_cancel_left_eq,
    List.append_cancel_right_eq] at hlist
  have hdigits : Nat.toDigits 10 v = Nat.toDigits 10 v' := by
    rw [← Nat.toList_repr, ← Nat.toList_repr]
    exact hlist
  rw [← Nat.ofDigitChars_ten_toDigits (n := v), hdigits, Nat.ofDigitChars_ten_toDigits]

theorem etag_ne_star (v : Nat) : "*" ≠ etag v := by
  intro h
  have hlist := congrArg String.toList h
  simp [etag, String.toList_append] at hlist

/-- A request passes at the version that it names only. -/
theorem Passes.version_eq {r : Request} {v v' : Nat} (h : Passes r v v') : v' = v := by
  rcases h with ⟨htokens, hpasses⟩ | ⟨htokens, hpasses⟩
  · simp only [conditionalGet, htokens, List.mem_singleton, etag_ne_star, decide_false,
      Bool.false_or, decide_eq_true_eq] at hpasses
    exact etag_injective hpasses
  · simp only [matchesVersion, htokens, List.mem_singleton, etag_ne_star, decide_false,
      Bool.or_false, List.cons_ne_nil, Bool.false_or, decide_eq_true_eq] at hpasses
    exact etag_injective hpasses

/-- `requireCurrent(record)`. -/
def requireCurrent {k : ResourceType} : Option (Record k) → Handler (Record k)
  | none => throw (.scim (.scim 404 "The requested SCIM resource does not exist." none))
  | some record => pure record

/-- The record that a write has returned. If it is `undefined`, reading it is a `TypeError`. -/
def returned {k : ResourceType} : Option (Record k) → Handler (Record k)
  | none => throw .other
  | some record => pure record

def checkId {k : ResourceType} (r : Request) (current : Record k) : Handler Unit :=
  if (r.body.get "id").isNullish || (r.body.get "id").same (.string current.id.text) then pure ()
  else throw (.scim (.scim 400 "id is immutable." (some "mutability")))

def liftError {α : Type} : Except Error α → Handler α
  | .ok a => pure a
  | .error e => throw (.scim e)

section Handlers

variable (lower : LowerCase)

/-- `normalizeUser` or `normalizeGroup`. The password of the current record is kept. -/
def normalize : (k : ResourceType) → Value → Option (Record k) → Except Error (Attributes k)
  | .user, body, current =>
    normalizeUser lower body (current.bind fun record => record.attributes.password.text?)
  | .group, body, _ => normalizeGroup lower body

/-- What PATCH makes of the attributes; `none` leaves them. -/
def patched : (k : ResourceType) → Attributes k → Value → Except Error (Option (Attributes k))
  | .user, current, body => patchUser lower current body
  | .group, current, body => patchGroup lower current body

/-- `getUser` and `getGroup` of the repository. -/
abbrev Reader : Type := (k : ResourceType) → String → Handler (Option (Record k))

variable (read : Reader)

/-- The members of a Group, as `groupResource` shows them. -/
def memberLinks : List String → Handler (List Link)
  | [] => pure []
  | value :: members => do
    let user ← read .user value
    let links ← memberLinks members
    return ⟨value, user.map fun record =>
      (record.attributes.text .displayName).text?.getD record.attributes.userName⟩ :: links

/-- What `userResource` and `groupResource` read. -/
def links : (k : ResourceType) → Record k → Handler (List Link)
  | .user, record => ask (.listUserGroups record.id.text)
  | .group, record => memberLinks read record.attributes.members

def sendResource (status : Nat) (k : ResourceType) (record : Record k) : Handler Reply := do
  let links ← links read k record
  return .resource status k record links

def writeAudit (action : String) (k : ResourceType) (id : Uuid) : Handler Unit :=
  ask (.audit ("scim." ++ lowerKey k.name ++ "." ++ action) k.name id.text)

/-- The end of `POST`. The Groups of a new User are read before the audit record is written. -/
def answerCreated : (k : ResourceType) → Record k → Handler Reply
  | .user, created => do
    let reply ← sendResource read 201 .user created
    writeAudit "created" .user created.id
    return reply
  | .group, created => do
    writeAudit "created" .group created.id
    sendResource read 201 .group created

def post (k : ResourceType) (r : Request) : Handler Reply := do
  let attributes ← liftError (normalize lower k r.body none)
  let written ← ask (.create k attributes)
  let created ← returned written
  answerCreated read k created

def get (k : ResourceType) (r : Request) : Handler Reply := do
  let found ← read k r.id
  let record ← requireCurrent found
  if conditionalGet r record.version then return .notModified
  else sendResource read 200 k record

/-- The end of `PUT` and `PATCH`. -/
def replaceWith (k : ResourceType) (action : String) (current : Record k)
    (attributes : Attributes k) : Handler Reply := do
  let written ← ask (.replace k current.id.text attributes current.version)
  writeAudit action k current.id
  let updated ← returned written
  sendResource read 200 k updated

def put (k : ResourceType) (r : Request) : Handler Reply := do
  let found ← read k r.id
  let current ← requireCurrent found
  checkIfMatch r current.version
  checkId r current
  let attributes ← liftError (normalize lower k (replacementBody r.body) (some current))
  replaceWith read k "replaced" current attributes

def patch (k : ResourceType) (r : Request) : Handler Reply := do
  let found ← read k r.id
  let current ← requireCurrent found
  checkIfMatch r current.version
  let next ← liftError (patched lower k current.attributes r.body)
  match next with
  | none => sendResource read 200 k current
  | some attributes => replaceWith read k "patched" current attributes

def delete (k : ResourceType) (r : Request) : Handler Reply := do
  let found ← read k r.id
  let current ← requireCurrent found
  checkIfMatch r current.version
  let _ ← ask (.delete k current.id.text current.version)
  writeAudit "deleted" k current.id
  return .noContent

def route (r : Request) : Handler Reply :=
  match r.method with
  | .post => post lower read r.resourceType r
  | .get => get read r.resourceType r
  | .put => put lower read r.resourceType r
  | .patch => patch lower read r.resourceType r
  | .delete => delete read r.resourceType r

/-- A handler with the error handler of the router. -/
def handle (r : Request) : Program operations Reply := do
  let result ← (route lower read r).run
  match result with
  | .ok reply => return reply
  | .error e => return e.reply

end Handlers

/-! ## What a handler obeys -/

section

variable {S : Type}

/-- The entry is a write that has succeeded. -/
def Changes (x : Entry operations S) : Prop :=
  x.op.isWrite = true ∧ (x.res : Except Failure x.op.Answer).isOk = true

/-- The entry is a `replace` with these attributes, or a `delete`, that has succeeded. -/
inductive Wrote (k : ResourceType) (id : String) (expectedVersion : Nat) :
    Option (Attributes k) → Entry operations S → Prop
  | replaced {attributes : Attributes k} {record : Option (Record k)} {before after : S} :
    Wrote k id expectedVersion (some attributes)
      ⟨.replace k id attributes expectedVersion, Except.ok record, before, after⟩
  | deleted {record : Option (Record k)} {before after : S} :
    Wrote k id expectedVersion none ⟨.delete k id expectedVersion, Except.ok record, before, after⟩

/-- What the request makes of a record; `none` deletes it. -/
def Request.Makes (lower : LowerCase) (r : Request) {k : ResourceType} (current : Record k) :
    Option (Attributes k) → Prop
  | some attributes =>
    (r.method = .put ∧
      normalize lower k (replacementBody r.body) (some current) = .ok attributes) ∨
    (r.method = .patch ∧ patched lower k current.attributes r.body = .ok (some attributes))
  | none => r.method = .delete

/-- The record is one that the request may write, and this is what it makes of it. -/
structure Decided (lower : LowerCase) (r : Request) {k : ResourceType} (current : Record k)
    (next : Option (Attributes k)) : Prop where
  resourceType : r.resourceType = k
  ifMatch : matchesVersion r.ifMatch current.version = true
  makes : r.Makes lower current next

/-- What a request may do: it writes what it makes of a record that it has read. -/
def Allowed (lower : LowerCase)
    (HasRead : List (Entry operations S) → (k : ResourceType) → Record k → Prop) (r : Request)
    (log : List (Entry operations S)) : Op → Prop
  | .create k attributes => r.method = .post ∧ r.resourceType = k ∧
      normalize lower k r.body none = .ok attributes
  | .replace k id attributes expectedVersion => ∃ current : Record k, HasRead log k current ∧
      id = current.id.text ∧ expectedVersion = current.version ∧
        Decided lower r current (some attributes)
  | .delete k id expectedVersion => ∃ current : Record k, HasRead log k current ∧
      id = current.id.text ∧ expectedVersion = current.version ∧ Decided lower r current none
  | _ => True

def Reply.IsAnswer : Reply → Prop
  | .failed _ _ _ => False
  | _ => True

/-- How a handler ends: a creation, replacement or deletion that is answered has been written, and
with an error that is told to the client nothing has. -/
def Ends (r : Request) (log : List (Entry operations S)) : Except Failure Reply → Prop
  | .ok reply => reply.IsAnswer ∧
      (r.method = .post ∨ r.method = .put ∨ r.method = .delete → ∃ x ∈ log, Changes x)
  | .error e => e = .other ∨ ∀ x ∈ log, ¬Changes x

/-- How a request ends. -/
def Answered (r : Request) (log : List (Entry operations S)) (reply : Reply) : Prop :=
  (reply.IsAnswer → r.method = .post ∨ r.method = .put ∨ r.method = .delete →
    ∃ x ∈ log, Changes x) ∧
  ∀ status detail scimType, reply = .failed status detail scimType → status ≠ 500 →
    ∀ x ∈ log, ¬Changes x

/-- What a program that only reads returns. -/
def Sees {α : Type} (T : α → Prop) : Except Failure α → Prop
  | .ok a => T a
  | .error e => e = .other

/-- The program writes nothing. -/
def OnlyReads (R : Entry operations S → Prop) {α : Type} (x : Handler α) (T : α → Prop) : Prop :=
  ∀ (P : List (Entry operations S) → Op → Prop)
    (Q : List (Entry operations S) → Except Failure α → Prop) (log : List (Entry operations S)),
    (∀ log op, op.isWrite = false → P log op) →
    (∀ l result, (∀ x ∈ l, ¬Changes x) → Sees T result → Q (l ++ log) result) →
      Program.Obeys R P Q log x.run

/-- The repository reads records by operations that write nothing. -/
structure Reads (R : Entry operations S → Prop) (read : Reader)
    (HasRead : List (Entry operations S) → (k : ResourceType) → Record k → Prop) : Prop where
  fails : ∀ x : Entry operations S, R x → x.op.isWrite = false →
    ∀ e, x.res = Except.error e → e = .other
  obeys : ∀ (k : ResourceType) (id : String) (P : List (Entry operations S) → Op → Prop)
    (Q : List (Entry operations S) → Except Failure (Option (Record k)) → Prop)
    (log : List (Entry operations S)), (∀ log op, op.isWrite = false → P log op) →
    (∀ l result, (∀ x ∈ l, ¬Changes x) →
      Sees (fun found => ∀ record, found = some record → HasRead (l ++ log) k record) result →
        Q (l ++ log) result) →
      Program.Obeys R P Q log (read k id).run

variable {R : Entry operations S → Prop} {read : Reader} {lower : LowerCase}
  {HasRead : List (Entry operations S) → (k : ResourceType) → Record k → Prop} {r : Request}
  {k : ResourceType} {α β : Type} {T : α → Prop} {U : β → Prop}

theorem not_changes_of_read {x : Entry operations S} (h : x.op.isWrite = false) : ¬Changes x := by
  rintro ⟨hwrite, -⟩
  rw [h] at hwrite
  cases hwrite

theorem OnlyReads.pure {a : α} (h : T a) : OnlyReads R (pure a : Handler α) T :=
  fun _ _ _ _ hQ => hQ [] (.ok a) (fun _ hx => nomatch hx) h

theorem OnlyReads.returned {record : Option (Record k)} :
    OnlyReads R (returned record) fun _ => True := by
  intro P Q log _ hQ
  cases record with
  | none => exact hQ [] (.error .other) (fun _ hx => nomatch hx) rfl
  | some record => exact hQ [] (.ok record) (fun _ hx => nomatch hx) trivial

theorem OnlyReads.bind {x : Handler α} {f : α → Handler β} (hx : OnlyReads R x T)
    (hf : ∀ a, T a → OnlyReads R (f a) U) : OnlyReads R (x >>= f) U := by
  intro P Q log hP hQ
  rw [Fallible.obeys_bind]
  refine hx P _ log hP ?_
  intro l result hl hsees
  cases result with
  | error e => exact hQ l (.error e) hl hsees
  | ok a =>
    refine hf a hsees P Q (l ++ log) hP ?_
    intro l' result' hl' hsees'
    rw [← List.append_assoc]
    refine hQ (l' ++ l) result' ?_ hsees'
    intro y hy
    rcases List.mem_append.mp hy with hy | hy
    · exact hl' y hy
    · exact hl y hy

namespace Reads

theorem onlyReads_ask (h : Reads R read HasRead) {op : Op} (hop : op.isWrite = false) :
    OnlyReads R (ask op) fun _ => True := by
  intro P Q log hP hQ
  refine ⟨hP log op hop, ?_⟩
  intro res before after hR
  refine hQ [⟨op, res, before, after⟩] res ?_ ?_
  · intro x hx
    rw [List.mem_singleton.mp hx]
    exact not_changes_of_read hop
  · cases hres : (res : Except Failure op.Answer) with
    | ok a => trivial
    | error e => exact h.fails _ hR hop e hres

theorem onlyReads_read (h : Reads R read HasRead) (k : ResourceType) (id : String) :
    OnlyReads R (read k id) fun _ => True := by
  intro P Q log hP hQ
  refine h.obeys k id P Q log hP ?_
  intro l result hl hsees
  refine hQ l result hl ?_
  cases result with
  | ok found => trivial
  | error e => exact hsees

theorem onlyReads_memberLinks (h : Reads R read HasRead) (members : List String) :
    OnlyReads R (memberLinks read members) fun _ => True := by
  induction members with
  | nil => exact .pure trivial
  | cons value members ih =>
    exact (h.onlyReads_read .user value).bind fun _ _ => ih.bind fun _ _ => .pure trivial

theorem onlyReads_sendResource (h : Reads R read HasRead) (status : Nat) (record : Record k) :
    OnlyReads R (sendResource read status k record) Reply.IsAnswer := by
  refine OnlyReads.bind (T := fun _ => True) ?_ fun _ _ => .pure trivial
  cases k with
  | user => exact h.onlyReads_ask rfl
  | group => exact h.onlyReads_memberLinks _

theorem onlyReads_writeAudit (h : Reads R read HasRead) (action : String) (id : Uuid) :
    OnlyReads R (writeAudit action k id) fun _ => True := h.onlyReads_ask rfl

theorem onlyReads_answerCreated (h : Reads R read HasRead) (created : Record k) :
    OnlyReads R (answerCreated read k created) Reply.IsAnswer := by
  cases k with
  | user =>
    exact (h.onlyReads_sendResource 201 created).bind fun _ hreply =>
      (h.onlyReads_writeAudit "created" created.id).bind fun _ _ => .pure hreply
  | group =>
    exact (h.onlyReads_writeAudit "created" created.id).bind fun _ _ =>
      h.onlyReads_sendResource 201 created

theorem allowed_of_read (log : List (Entry operations S)) (op : Op) (hop : op.isWrite = false) :
    Allowed lower HasRead r log op := by
  cases op with
  | create _ _ => cases hop
  | replace _ _ _ _ => cases hop
  | delete _ _ _ => cases hop
  | _ => trivial

/-- What is read after a write leaves the write in the log. -/
theorem obeys_after_write {x : Handler Reply} (hx : OnlyReads R x Reply.IsAnswer)
    {log : List (Entry operations S)} {w : Entry operations S} (hw : w ∈ log) (hwrite : Changes w) :
    Program.Obeys R (Allowed lower HasRead r) (Ends r) log x.run := by
  refine hx _ _ log allowed_of_read ?_
  intro l result _ hsees
  cases result with
  | error e => exact .inl hsees
  | ok reply => exact ⟨hsees, fun _ => ⟨w, List.mem_append_right _ hw, hwrite⟩⟩

/-- A write, and what comes after it. -/
theorem obeys_write (op : Op) (hop : op.isWrite = true) {f : op.Answer → Handler Reply}
    (hf : ∀ a, OnlyReads R (f a) Reply.IsAnswer) {log : List (Entry operations S)}
    (hallowed : Allowed lower HasRead r log op) (hlog : ∀ x ∈ log, ¬Changes x) :
    Program.Obeys R (Allowed lower HasRead r) (Ends r) log (ask op >>= f).run := by
  rw [Fallible.obeys_bind]
  refine ⟨hallowed, ?_⟩
  intro res before after _
  cases hres : (res : Except Failure op.Answer) with
  | ok a =>
    exact obeys_after_write (hf a) List.mem_cons_self ⟨hop, rfl⟩
  | error e =>
    refine .inr ?_
    intro x hx
    rcases List.mem_cons.mp hx with rfl | hx
    · exact fun hchanges => nomatch hchanges.2
    · exact hlog x hx

theorem obeys_replaceWith (h : Reads R read HasRead) {action : String} {current : Record k}
    {attributes : Attributes k} {log : List (Entry operations S)} (hread : HasRead log k current)
    (hdecided : Decided lower r current (some attributes)) (hlog : ∀ x ∈ log, ¬Changes x) :
    Program.Obeys R (Allowed lower HasRead r) (Ends r) log
      (replaceWith read k action current attributes).run := by
  refine obeys_write _ rfl ?_ ⟨current, hread, rfl, rfl, hdecided⟩ hlog
  exact fun _ => (h.onlyReads_writeAudit action current.id).bind fun _ _ =>
    OnlyReads.returned.bind fun updated _ => h.onlyReads_sendResource 200 updated

/-- A handler that first reads the resource. -/
theorem obeys_found (h : Reads R read HasRead) {f : Record k → Handler Reply}
    (hf : ∀ log current, (∀ x ∈ log, ¬Changes x) → HasRead log k current →
      Program.Obeys R (Allowed lower HasRead r) (Ends r) log (f current).run) :
    Program.Obeys R (Allowed lower HasRead r) (Ends r) []
      (read k r.id >>= fun found => requireCurrent found >>= f).run := by
  rw [Fallible.obeys_bind]
  refine h.obeys k r.id _ _ [] allowed_of_read ?_
  intro l result hl hsees
  rw [List.append_nil] at hsees ⊢
  cases result with
  | error e => exact .inl hsees
  | ok found =>
    cases found with
    | none => exact .inr hl
    | some current => exact hf l current hl (hsees current rfl)

/-- A check that a handler makes. -/
theorem obeys_check {c : Bool} {e : Failure} {f : Unit → Handler Reply}
    {log : List (Entry operations S)} (hlog : ∀ x ∈ log, ¬Changes x)
    (hf : c = true → Program.Obeys R (Allowed lower HasRead r) (Ends r) log (f ()).run) :
    Program.Obeys R (Allowed lower HasRead r) (Ends r) log
      ((if c then pure () else throw e : Handler Unit) >>= f).run := by
  cases c with
  | false => exact .inr hlog
  | true => exact hf rfl

theorem obeys_liftError {result : Except Error α} {f : α → Handler Reply}
    {log : List (Entry operations S)} (hlog : ∀ x ∈ log, ¬Changes x)
    (hf : ∀ a, result = .ok a →
      Program.Obeys R (Allowed lower HasRead r) (Ends r) log (f a).run) :
    Program.Obeys R (Allowed lower HasRead r) (Ends r) log (liftError result >>= f).run := by
  cases result with
  | error e => exact .inr hlog
  | ok a => exact hf a rfl

theorem obeys_post (h : Reads R read HasRead) (hmethod : r.method = .post) :
    Program.Obeys R (Allowed lower HasRead r) (Ends r) []
      (post lower read r.resourceType r).run := by
  refine obeys_liftError (fun _ hx => nomatch hx) ?_
  intro attributes hattributes
  refine obeys_write (.create r.resourceType attributes) rfl ?_
    ⟨hmethod, rfl, hattributes⟩ fun _ hx => nomatch hx
  exact fun _ => OnlyReads.returned.bind fun created _ => h.onlyReads_answerCreated created

theorem obeys_get (h : Reads R read HasRead) (hmethod : r.method = .get) :
    Program.Obeys R (Allowed lower HasRead r) (Ends r) [] (get read r.resourceType r).run := by
  refine obeys_found h ?_
  intro log record hlog _
  have hother : ¬(r.method = .post ∨ r.method = .put ∨ r.method = .delete) := by
    rw [hmethod]
    decide
  split
  · exact ⟨trivial, fun hwrites => absurd hwrites hother⟩
  · refine h.onlyReads_sendResource 200 record _ _ log allowed_of_read ?_
    intro l result _ hsees
    cases result with
    | error e => exact .inl hsees
    | ok reply => exact ⟨hsees, fun hwrites => absurd hwrites hother⟩

theorem obeys_put (h : Reads R read HasRead) (hmethod : r.method = .put) :
    Program.Obeys R (Allowed lower HasRead r) (Ends r) []
      (put lower read r.resourceType r).run := by
  refine obeys_found h ?_
  intro log current hlog hread
  refine obeys_check hlog ?_
  intro hmatches
  refine obeys_check hlog ?_
  intro _
  refine obeys_liftError hlog ?_
  intro attributes hattributes
  exact obeys_replaceWith h hread ⟨rfl, hmatches, .inl ⟨hmethod, hattributes⟩⟩ hlog

theorem obeys_patch (h : Reads R read HasRead) (hmethod : r.method = .patch) :
    Program.Obeys R (Allowed lower HasRead r) (Ends r) []
      (patch lower read r.resourceType r).run := by
  refine obeys_found h ?_
  intro log current hlog hread
  refine obeys_check hlog ?_
  intro hmatches
  refine obeys_liftError hlog ?_
  intro next hnext
  cases next with
  | none =>
    refine h.onlyReads_sendResource 200 current _ _ log allowed_of_read ?_
    intro l result _ hsees
    cases result with
    | error e => exact .inl hsees
    | ok reply =>
      refine ⟨hsees, fun hwrites => absurd hwrites ?_⟩
      rw [hmethod]
      decide
  | some attributes =>
    exact obeys_replaceWith h hread ⟨rfl, hmatches, .inr ⟨hmethod, hnext⟩⟩ hlog

theorem obeys_delete (h : Reads R read HasRead) (hmethod : r.method = .delete) :
    Program.Obeys R (Allowed lower HasRead r) (Ends r) []
      (delete read r.resourceType r).run := by
  refine obeys_found h ?_
  intro log current hlog hread
  refine obeys_check hlog ?_
  intro hmatches
  refine obeys_write _ rfl ?_
    ⟨current, hread, rfl, rfl, rfl, hmatches, hmethod⟩ hlog
  exact fun _ => (h.onlyReads_writeAudit "deleted" current.id).bind fun _ _ => .pure trivial

theorem obeys_route (h : Reads R read HasRead) (r : Request) :
    Program.Obeys R (Allowed lower HasRead r) (Ends r) [] (route lower read r).run := by
  unfold route
  cases hmethod : r.method with
  | post => exact obeys_post h hmethod
  | get => exact obeys_get h hmethod
  | put => exact obeys_put h hmethod
  | patch => exact obeys_patch h hmethod
  | delete => exact obeys_delete h hmethod

theorem not_isAnswer_reply (e : Failure) : ¬e.reply.IsAnswer := by
  cases e with
  | scim error => cases error <;> exact id
  | repository error =>
    cases error with
    | repository code message => cases code <;> exact id
    | database error => exact id
  | other => exact id

theorem obeys_handle (h : Reads R read HasRead) (r : Request) :
    Program.Obeys R (Allowed lower HasRead r) (Answered r) [] (handle lower read r) := by
  rw [handle, Program.obeys_bind]
  refine (obeys_route h r).mono (fun _ _ hop => hop) ?_
  intro log result hends
  cases result with
  | ok reply =>
    refine ⟨fun _ => hends.2, ?_⟩
    rintro status detail scimType rfl
    exact hends.1.elim
  | error e =>
    refine ⟨fun hanswer => absurd hanswer (not_isAnswer_reply e), ?_⟩
    intro status detail scimType hreply hstatus
    rcases hends with rfl | hlog
    · cases hreply
      exact absurd rfl hstatus
    · exact hlog

end Reads

end

end AuthMe.Scim.Routes

import AuthMe.Federation.MemoryMapping

/-!
# What the methods of the mapping do

`Performs` says what a method has done when it performs an operation, and `Returns` what it has done
when it answers, whatever the answers of the operations are (`methods_spec`). A link is written after
the call has seen, under the lock of the identity, that there is none, and for the user that the call
has just created. `made` and `lost` say what an operation does to the links.
-/

namespace AuthMe.Federation.Mapping.Memory

open DataLayer.Tables (Account)
open Scim (LowerCase)
open Service (Entry Answered Answers Program)

abbrev Log : Type := List (Entry operations State)

/-- The operation creates and links nothing. -/
def Op.isSearch : Op → Bool
  | .lock _ | .getLink _ | .deleteLink _ | .findUserById .. | .findUserByLogin .. => true
  | _ => false

/-- The call has seen that the identity has no link. -/
def Vacant (identity : Identity) (log : Log) : Prop :=
  Answered log (.getLink identity) none ∨ Answered log (.deleteLink identity) ()

/-- `resolve` holds the lock of the identity, and has found no link. -/
structure Searching (identity : Identity) (log : Log) : Prop where
  holds : lockTable.Holds (key identity) log
  vacant : Vacant identity log
  searched : ∀ x ∈ log, x.op.isSearch = true

/-- It has drawn an identifier. -/
inductive Drawn (identity : Identity) (userId : String) : Log → Prop
  | intro {before after : State} {log : Log} (h : Searching identity log) :
    Drawn identity userId (⟨.randomUUID, userId, before, after⟩ :: log)

/-- It has created the user. -/
inductive Made (identity : Identity) (userId : String) : Log → Prop
  | intro {user : Store.User} {account : Account} {before after : State} {log : Log}
    (h : Drawn identity userId log) (huser : user.id = userId) (haccount : account.id = userId) :
    Made identity userId (⟨.createUser user, .ok account, before, after⟩ :: log)

def Condition (lower : LowerCase) (r : Request) (log : Log) : Op → Prop
  | .lock _ => ∀ x ∈ log, ∃ lockKey, x.op = .lock lockKey
  | .unlock lockKey => lockTable.Holds lockKey log
  | .getLink identity => r.Resolves lower identity ∧ lockTable.Holds (key identity) log
  | .deleteLink identity => r.Resolves lower identity ∧ lockTable.Holds (key identity) log ∧
    ∃ link, Answered log (.getLink identity) (some link) ∧
      Answered log (.findUserById identity.realm link.userId) none
  | .randomUUID => ∃ identity, r.Resolves lower identity ∧ Searching identity log
  | .createUser user => ∃ identity, r.Resolves lower identity ∧ Drawn identity user.id log
  | .setLink link => r.Resolves lower link.identity ∧ Made link.identity link.userId log
  | .attach identity userId => r.Links lower identity userId ∧ lockTable.Holds (key identity) log
  | _ => True

/-- What a request has done when it performs an operation. What follows the creation of a user is its
link. -/
def Performs (lower : LowerCase) (r : Request) (log : Log) (op : Op) : Prop :=
  Condition lower r log op ∧ ∀ identity userId, r.Resolves lower identity →
    Made identity userId log → op = .setLink ⟨identity, userId⟩

/-- The entry has given an identity to a user. -/
def Maps (x : Entry operations State) : Prop :=
  (∃ link, x.op = .setLink link) ∨
    ∃ identity userId link before after, x = ⟨.attach identity userId, .linked link, before, after⟩

/-- The call has given no identity to anybody. -/
def Unmapped (log : Log) : Prop := ∀ x ∈ log, ¬Maps x

/-- What a request has done when it answers. -/
def Returns (lower : LowerCase) (r : Request) (log : Log) : Reply Account → Prop
  | .mapped status user link => r.Resolves lower link.identity ∧ user.id = link.userId ∧
    match status with
    | .created => Answered log (.setLink link) ()
    | _ => Answered log (.getLink link.identity) (some link) ∧
      Answered log (.findUserById link.identity.realm link.userId) (some user) ∧
      (status = .resolved ↔ user.enabled = true)
  | .linked link => r.Links lower link.identity link.userId ∧
    Answered log (.attach link.identity link.userId) (.linked link)
  | .conflict link => Unmapped log ∧ ∃ identity userId found, link = some found ∧
    r.Links lower identity userId ∧ Answered log (.attach identity userId) (.conflict found)
  | .links links => Unmapped log ∧ ∃ realm userId, r = .list realm userId ∧
    Answered log (.list realm userId) links
  | .unlinked link => Unmapped log ∧ ∃ realm userId providerId issuer,
    r = .unlink realm userId providerId issuer ∧
    Answered log (.unlink realm userId providerId issuer) link
  | .notFound | .linkRequired _ | .failed _ => Unmapped log

/-! ## What the operations do to the links -/

section

variable {lower : LowerCase} {choice : Choice} {s s' : State} {op : Op} {res : op.Res}

/-- The operation can change the links. -/
def Op.isLinking : Op → Bool
  | .deleteLink _ | .setLink _ | .attach .. | .unlink .. => true
  | _ => false

theorem links_kept (h : s.answer lower choice op = some (res, s')) (hop : op.isLinking = false) :
    s'.links = s.links := by
  cases op with
  | deleteLink | setLink | attach | unlink => cases hop
  | lock _ =>
    simp only [State.answer] at h
    split at h
    · cases h
    · cases h
      rfl
  | randomUUID =>
    simp only [State.answer] at h
    split at h
    · cases h
    · cases h
      rfl
  | createUser user =>
    simp only [State.answer] at h
    split at h
    · cases h
      rfl
    · split at h <;> cases h <;> rfl
  | _ =>
    cases h
    rfl

/-- A link that is there after an operation was there before it, or it is the one that the operation
makes. -/
theorem made (h : s.answer lower choice op = some (res, s')) {lockKey : String} {link : Link}
    (hlink : s'.links.get? lockKey = some link) :
    s.links.get? lockKey = some link ∨ op = .setLink link ∨
      (⟨op, res, s, s'⟩ : Entry operations State) =
          ⟨.attach link.identity link.userId, .linked link, s, s'⟩ ∧
        ∀ other ∈ s.links.rows, other.joins link.identity.realm link.userId link.identity.providerId
          link.identity.issuer = false := by
  cases op with
  | deleteLink identity =>
    cases h
    rw [Table.get?_erase] at hlink
    split at hlink
    · cases hlink
    · exact .inl hlink
  | setLink new =>
    cases h
    rw [Table.get?_insert] at hlink
    split at hlink
    · cases hlink
      exact .inr (.inl rfl)
    · exact .inl hlink
  | attach identity userId =>
    have hboth : s.attach identity userId = (res, s') := Option.some.inj h
    rcases attach_cases hboth with ⟨rfl, -⟩ | ⟨rfl, rfl, -, halone⟩
    · exact .inl hlink
    · rw [Table.get?_insert] at hlink
      split at hlink
      · cases hlink
        exact .inr (.inr ⟨rfl, halone⟩)
      · exact .inl hlink
  | unlink realm userId providerId issuer =>
    have hboth : s.unlink realm userId providerId issuer = (res, s') := Option.some.inj h
    rcases unlink_cases hboth with ⟨-, rfl⟩ | ⟨found, -, -, rfl⟩
    · exact .inl hlink
    · rw [Table.get?_erase] at hlink
      split at hlink
      · cases hlink
      · exact .inl hlink
  | _ =>
    rw [links_kept h rfl] at hlink
    exact .inl hlink

/-- The operation takes the link of the identity away. -/
inductive Unlinks (identity : Identity) : Entry operations State → Prop
  | unlink {realm userId providerId issuer : String} {link : Link} {before after : State}
    (h : link.identity = identity) :
    Unlinks identity ⟨.unlink realm userId providerId issuer, some link, before, after⟩
  | stale {before after : State} : Unlinks identity ⟨.deleteLink identity, (), before, after⟩

/-- A link stays, until an operation takes it away or writes another one. -/
theorem lost (h : s.answer lower choice op = some (res, s')) {identity : Identity} {link : Link}
    (hlink : s.links.get? (key identity) = some link) :
    s'.links.get? (key identity) = some link ∨ Unlinks identity ⟨op, res, s, s'⟩ ∨
      ∃ new, op = .setLink new ∧ new.identity = identity := by
  have hkey := Table.keyOf_of_get? hlink
  cases op with
  | deleteLink other =>
    cases h
    rw [Table.get?_erase]
    split
    · rename_i hsame
      cases key_injective hsame
      exact .inr (.inl .stale)
    · exact .inl hlink
  | setLink new =>
    cases h
    rw [Table.get?_insert]
    split
    · rename_i hsame
      exact .inr (.inr ⟨new, rfl, (key_injective hsame).symm⟩)
    · exact .inl hlink
  | attach other userId =>
    have hboth : s.attach other userId = (res, s') := Option.some.inj h
    rcases attach_cases hboth with ⟨rfl, -⟩ | ⟨-, rfl, hnone, -⟩
    · exact .inl hlink
    · rw [Table.get?_insert]
      split
      · rename_i hsame
        rw [key_injective hsame, hnone] at hlink
        cases hlink
      · exact .inl hlink
  | unlink realm userId providerId issuer =>
    have hboth : s.unlink realm userId providerId issuer = (res, s') := Option.some.inj h
    rcases unlink_cases hboth with ⟨-, rfl⟩ | ⟨found, -, rfl, rfl⟩
    · exact .inl hlink
    · rw [Table.get?_erase]
      split
      · rename_i hsame
        exact .inr (.inl (.unlink (key_injective hsame).symm))
      · exact .inl hlink
  | _ =>
    rw [links_kept h rfl]
    exact .inl hlink

end

/-! ## What the answers say -/

section

variable {lower : LowerCase} {disabledPasswordHash : String} {before after : State}

/-- A link is stored under the key of its identity. -/
theorem identity_of_get? {links : Table String Link Link.key} {identity : Identity} {link : Link}
    (h : links.get? (key identity) = some link) : link.identity = identity := by
  have hkey := Table.keyOf_of_get? h
  exact key_injective hkey

theorem identity_of_getLink {identity : Identity} {link : Link}
    (h : Answers (service lower disabledPasswordHash)
      ⟨.getLink identity, some link, before, after⟩) :
    link.identity = identity ∧ before.links.get? (key identity) = some link := by
  obtain ⟨choice, hanswer⟩ := h
  have hget : before.links.get? (key identity) = some link :=
    congrArg Prod.fst (Option.some.inj hanswer)
  exact ⟨identity_of_get? hget, hget⟩

theorem id_of_findUserById {realm id : String} {user : Account}
    (h : Answers (service lower disabledPasswordHash)
      ⟨.findUserById realm id, some user, before, after⟩) : user.id = id := by
  obtain ⟨choice, hanswer⟩ := h
  have hget : before.accounts.users.get? (realm, id) = some user :=
    congrArg Prod.fst (Option.some.inj hanswer)
  exact congrArg Prod.snd (Table.keyOf_of_get? hget)

theorem id_of_created {user : Store.User} {account : Account} {choice : Choice}
    (h : before.answer lower choice (.createUser user) = some (.ok account, after)) :
    account.id = user.id := by
  simp only [State.answer] at h
  split at h
  · cases h
  · split at h
    · cases h
    · cases h
      rfl

theorem id_of_createUser {user : Store.User} {account : Account}
    (h : Answers (service lower disabledPasswordHash)
      ⟨.createUser user, .ok account, before, after⟩) : account.id = user.id := by
  obtain ⟨choice, hanswer⟩ := h
  exact id_of_created hanswer

/-- An `attach` that links, links what it was asked to. -/
theorem link_of_attach {identity : Identity} {userId : String} {link : Link}
    (h : Answers (service lower disabledPasswordHash)
      ⟨.attach identity userId, .linked link, before, after⟩) : link = ⟨identity, userId⟩ := by
  obtain ⟨choice, hanswer⟩ := h
  have hboth : before.attach identity userId = (.linked link, after) := Option.some.inj hanswer
  rcases attach_cases hboth with ⟨-, hfound, -⟩ | ⟨hnew, -⟩
  · obtain ⟨huser, hget⟩ := hfound link rfl
    exact Link.mk.injEq .. ▸ ⟨identity_of_get? hget, huser⟩
  · cases hnew
    rfl

end

/-! ## What the methods do -/

section

variable {lower : LowerCase} {disabledPasswordHash : String} {r : Request} {identity : Identity}
  {log : Log} {lockKey : String}

theorem Searching.cons (h : Searching identity log) {x : Entry operations State}
    (hx : x.op.isSearch = true) : Searching identity (x :: log) where
  holds := by
    refine .inr ⟨h.holds, fun hreleases => ?_⟩
    obtain ⟨op, res, before, after⟩ := x
    cases op with
    | unlock _ => cases hx
    | _ => cases hreleases
  vacant := h.vacant.imp .there .there
  searched := by
    intro y hy
    rcases List.mem_cons.mp hy with rfl | hy
    · exact hx
    · exact h.searched y hy

/-- What an operation is and answers decides whether the call has just created a user. -/
theorem not_made {x : Entry operations State} (hx : ∀ user, x.op ≠ .createUser user) :
    ∀ identity userId, ¬Made identity userId (x :: log) := by
  rintro identity userId ⟨⟩
  exact hx _ rfl

theorem not_maps_of_isSearch {x : Entry operations State} (hx : x.op.isSearch = true) : ¬Maps x := by
  rintro (⟨link, hop⟩ | ⟨identity, userId, link, before, after, rfl⟩)
  · rw [hop] at hx
    cases hx
  · cases hx

/-- How a method ends under the lock. -/
structure Ends (lower : LowerCase) (r : Request) (lockKey : String) (log : Log)
    (reply : Reply Account) : Prop where
  holds : lockTable.Holds lockKey log
  settled : ∀ identity userId, ¬Made identity userId log
  returns : Returns lower r log reply

/-- The release of a lock maps nothing. -/
theorem returns_unlock {reply : Reply Account} (h : Returns lower r log reply) {before after : State} :
    Returns lower r (⟨.unlock lockKey, (), before, after⟩ :: log) reply := by
  have hmaps : Unmapped log →
      Unmapped (⟨.unlock lockKey, (), before, after⟩ :: log) := by
    intro hall x hx
    rcases List.mem_cons.mp hx with rfl | hx
    · rintro (⟨link, hop⟩ | ⟨identity, userId, link, _, _, heq⟩)
      · cases hop
      · cases heq
    · exact hall x hx
  cases reply with
  | mapped status user link =>
    obtain ⟨hresolves, hid, hstatus⟩ := h
    refine ⟨hresolves, hid, ?_⟩
    cases status with
    | created => exact hstatus.there
    | _ => exact ⟨hstatus.1.there, hstatus.2.1.there, hstatus.2.2⟩
  | linked link => exact ⟨h.1, h.2.there⟩
  | conflict link =>
    obtain ⟨hall, identity, userId, found, rfl, hlinks, hattached⟩ := h
    exact ⟨hmaps hall, identity, userId, found, rfl, hlinks, hattached.there⟩
  | links links =>
    obtain ⟨hall, realm, userId, rfl, hlisted⟩ := h
    exact ⟨hmaps hall, realm, userId, rfl, hlisted.there⟩
  | unlinked link =>
    obtain ⟨hall, realm, userId, providerId, issuer, rfl, hunlinked⟩ := h
    exact ⟨hmaps hall, realm, userId, providerId, issuer, rfl, hunlinked.there⟩
  | notFound | linkRequired _ | failed _ => exact hmaps h

theorem Resolves.unique {other : Identity} (h : r.Resolves lower identity)
    (h' : r.Resolves lower other) : other = identity := by
  obtain ⟨input, normalized, rfl, hnormalized, rfl⟩ := h
  obtain ⟨input', normalized', hinput, hnormalized', rfl⟩ := h'
  cases hinput
  rw [hnormalized] at hnormalized'
  cases hnormalized'
  rfl

/-- The lock is held on, and nothing has been mapped. -/
structure Holding (lockKey : String) (log : Log) : Prop where
  holds : lockTable.Holds lockKey log
  unmapped : Unmapped log

theorem Holding.cons (h : Holding lockKey log) {x : Entry operations State}
    (hx : lockTable.releases x.op = none) (hmaps : ¬Maps x) : Holding lockKey (x :: log) where
  holds := h.holds.cons hx
  unmapped := by
    intro y hy
    rcases List.mem_cons.mp hy with rfl | hy
    · exact hmaps
    · exact h.unmapped y hy

theorem Searching.holding (h : Searching identity log) : Holding (key identity) log :=
  ⟨h.holds, fun x hx => not_maps_of_isSearch (h.searched x hx)⟩

theorem performs_of {op : Op} (h : Condition lower r log op)
    (hsettled : ∀ identity userId, ¬Made identity userId log) : Performs lower r log op :=
  ⟨h, fun identity userId _ hmade => absurd hmade (hsettled identity userId)⟩

theorem obeys_locked {K : Log → Prop} {Q : Log → Reply Account → Prop} {operation : Method}
    (hlock : Performs lower r log (.lock lockKey))
    (h : ∀ before after, Program.Obeys (Answers (service lower disabledPasswordHash))
      (Performs lower r) (fun log reply => Ends lower r lockKey log reply ∧ K log)
      (⟨.lock lockKey, (), before, after⟩ :: log) operation)
    (hQ : ∀ {log reply before after}, Ends lower r lockKey log reply → K log →
      Q (⟨.unlock lockKey, (), before, after⟩ :: log) reply) :
    Program.Obeys (Answers (service lower disabledPasswordHash)) (Performs lower r) Q log
      (locked lockKey operation) := by
  refine ⟨hlock, fun _ before after _ => ?_⟩
  change Program.Obeys _ _ _ _ (operation >>= fun reply =>
    .await (.unlock lockKey) fun _ => .done reply)
  rw [Program.obeys_bind]
  refine (h before after).mono (fun _ _ h => h) ?_
  rintro log reply ⟨hends, hK⟩
  exact ⟨performs_of hends.holds hends.settled, fun _ _ _ _ => hQ hends hK⟩

/-- `K` is what is known of the log before the search and after it. -/
theorem obeys_collision {K : Log → Prop} {Q : Log → Reply Account → Prop}
    {f : Option Account → Method} {realm : String} {profile : Scim.Profile}
    (hsettled : ∀ identity userId, ¬Made identity userId log) (hK : K log)
    (hcons : ∀ {realm login res before after log}, K log →
      K (⟨.findUserByLogin realm login, res, before, after⟩ :: log))
    (h : ∀ {log user}, K log → (∀ identity userId, ¬Made identity userId log) →
      Program.Obeys (Answers (service lower disabledPasswordHash)) (Performs lower r) Q log (f user)) :
    Program.Obeys (Answers (service lower disabledPasswordHash)) (Performs lower r) Q log
      (collision realm profile >>= f) := by
  unfold collision
  rw [Program.bind_assoc]
  refine ⟨performs_of trivial hsettled, fun res before after _ => ?_⟩
  cases res with
  | some user => exact h (hcons hK) (not_made (by simp))
  | none =>
    change Program.Obeys _ _ _ _ ((if profile.email = "" then (.done none : Program operations _)
      else ask (.findUserByLogin realm profile.email)) >>= f)
    split
    · exact h (hcons hK) (not_made (by simp))
    · refine ⟨performs_of trivial (not_made (by simp)), fun res before after _ => ?_⟩
      exact h (hcons (hcons hK)) (not_made (by simp))

theorem obeys_create {normalized : Normalized} (hr : r.Resolves lower normalized.identity)
    (h : Searching normalized.identity log)
    (hsettled : ∀ identity userId, ¬Made identity userId log) :
    Program.Obeys (Answers (service lower disabledPasswordHash)) (Performs lower r)
      (Ends lower r (key normalized.identity)) log (create disabledPasswordHash normalized) := by
  refine ⟨performs_of ⟨_, hr, h⟩ hsettled, fun userId before after _ => ?_⟩
  refine ⟨performs_of ⟨_, hr, .intro h⟩ (not_made (by simp)), fun res before' after' hanswers => ?_⟩
  have hdrawn := h.holding.cons (x := ⟨.randomUUID, userId, before, after⟩) rfl (by simp [Maps])
  cases res with
  | error e =>
    have hholding := hdrawn.cons (x := ⟨.createUser (newUser disabledPasswordHash normalized userId),
      .error e, before', after'⟩) rfl (by simp [Maps])
    have hfailed : ∀ identity userId', ¬Made identity userId'
        (⟨.createUser (newUser disabledPasswordHash normalized userId), .error e, before', after'⟩ ::
          ⟨.randomUUID, userId, before, after⟩ :: log) := by
      rintro identity userId' ⟨⟩
    cases e with
    | userExists =>
      refine obeys_collision (K := Holding (key normalized.identity)) hfailed hholding ?_ ?_
      · intro realm login res before after log hlog
        exact hlog.cons rfl (by simp [Maps])
      · intro log user hlog hsettled
        cases user with
        | some user => exact ⟨hlog.holds, hsettled, hlog.unmapped⟩
        | none => exact ⟨hlog.holds, hsettled, hlog.unmapped⟩
    | _ => exact ⟨hholding.holds, hfailed, hholding.unmapped⟩
  | ok account =>
    have hid : account.id = userId := id_of_createUser hanswers
    have hmade : Made normalized.identity account.id
        (⟨.createUser (newUser disabledPasswordHash normalized userId), .ok account, before', after'⟩ ::
          ⟨.randomUUID, userId, before, after⟩ :: log) := by
      rw [hid]
      exact .intro (.intro h) rfl hid
    refine ⟨⟨⟨hr, hmade⟩, ?_⟩, fun _ before'' after'' _ => ?_⟩
    · rintro identity userId' hother ⟨-, -, haccount⟩
      rw [Resolves.unique hr hother, haccount]
    · exact ⟨(hdrawn.holds.cons rfl).cons rfl, not_made (by simp), hr, rfl, .here⟩

theorem obeys_resolveNew {normalized : Normalized} (hr : r.Resolves lower normalized.identity)
    (h : Searching normalized.identity log)
    (hsettled : ∀ identity userId, ¬Made identity userId log) :
    Program.Obeys (Answers (service lower disabledPasswordHash)) (Performs lower r)
      (Ends lower r (key normalized.identity)) log (resolveNew disabledPasswordHash normalized) := by
  unfold resolveNew
  split
  · exact ⟨h.holds, hsettled, h.holding.unmapped⟩
  · refine obeys_collision (K := Searching normalized.identity) hsettled h ?_ ?_
    · intro realm login res before after log hlog
      exact hlog.cons rfl
    · intro log user hlog hsettled
      cases user with
      | some user => exact ⟨hlog.holds, hsettled, hlog.holding.unmapped⟩
      | none => exact obeys_create hr hlog hsettled

/-- The log of a call that has done nothing but take locks. -/
def OnlyLocks (log : Log) : Prop := ∀ x ∈ log, ∃ lockKey, x.op = .lock lockKey

theorem OnlyLocks.cons (h : OnlyLocks log) {before after : State} :
    OnlyLocks (⟨.lock lockKey, (), before, after⟩ :: log) := by
  intro x hx
  rcases List.mem_cons.mp hx with rfl | hx
  · exact ⟨lockKey, rfl⟩
  · exact h x hx

theorem OnlyLocks.searched (h : OnlyLocks log) : ∀ x ∈ log, x.op.isSearch = true := by
  intro x hx
  obtain ⟨k, hop⟩ := h x hx
  rw [hop]
  rfl

theorem OnlyLocks.settled (h : OnlyLocks log) : ∀ identity userId, ¬Made identity userId log := by
  rintro identity userId ⟨-, -, -⟩
  obtain ⟨k, hop⟩ := h _ List.mem_cons_self
  cases hop

theorem obeys_resolveLocked {normalized : Normalized} (hr : r.Resolves lower normalized.identity)
    (hholds : lockTable.Holds (key normalized.identity) log) (hlocks : OnlyLocks log) :
    Program.Obeys (Answers (service lower disabledPasswordHash)) (Performs lower r)
      (Ends lower r (key normalized.identity)) log
      (resolveLocked disabledPasswordHash normalized) := by
  refine ⟨performs_of ⟨hr, hholds⟩ hlocks.settled, fun res before after hanswers => ?_⟩
  have hread : ∀ link : Option Link,
      ∀ x ∈ (⟨.getLink normalized.identity, link, before, after⟩ :: log : Log),
      x.op.isSearch = true := by
    intro link x hx
    rcases List.mem_cons.mp hx with rfl | hx
    · rfl
    · exact hlocks.searched x hx
  cases res with
  | none => exact obeys_resolveNew hr ⟨hholds.cons rfl, .inl .here, hread _⟩ (not_made (by simp))
  | some existing =>
    obtain ⟨hidentity, -⟩ := identity_of_getLink hanswers
    refine ⟨performs_of trivial (not_made (by simp)), fun res before' after' hanswers' => ?_⟩
    cases res with
    | some user =>
      refine ⟨(hholds.cons rfl).cons rfl, not_made (by simp), hidentity ▸ hr,
        id_of_findUserById hanswers', ?_⟩
      rw [hidentity]
      cases user.enabled with
      | true => exact ⟨.there .here, .here, by simp⟩
      | false => exact ⟨.there .here, .here, by simp⟩
    | none =>
      have hlocked : lockTable.Holds (key normalized.identity)
          (⟨.findUserById normalized.identity.realm existing.userId, none, before', after'⟩ ::
            ⟨.getLink normalized.identity, some existing, before, after⟩ :: log) :=
        (hholds.cons rfl).cons rfl
      refine ⟨performs_of ⟨hr, hlocked, existing, .there .here, .here⟩ (not_made (by simp)),
        fun _ before'' after'' _ => ?_⟩
      refine obeys_resolveNew hr ⟨hlocked.cons rfl, .inr .here, ?_⟩ (not_made (by simp))
      intro x hx
      rcases List.mem_cons.mp hx with rfl | hx
      · rfl
      · rcases List.mem_cons.mp hx with rfl | hx
        · rfl
        · exact hread _ x hx

theorem obeys_linkLocked {userId : String} (hr : r.Links lower identity userId)
    (hholds : lockTable.Holds (key identity) log) {k : String} (houter : lockTable.Holds k log)
    (hlocks : OnlyLocks log) :
    Program.Obeys (Answers (service lower disabledPasswordHash)) (Performs lower r)
      (fun log reply => Ends lower r (key identity) log reply ∧ lockTable.Holds k log) log
      (linkLocked identity userId) := by
  have hunmapped : Unmapped log := fun x hx => not_maps_of_isSearch (hlocks.searched x hx)
  refine ⟨performs_of trivial hlocks.settled, fun res before after hanswers => ?_⟩
  have hread := (Holding.mk hholds hunmapped).cons
    (x := ⟨.findUserById identity.realm userId, res, before, after⟩) rfl (not_maps_of_isSearch rfl)
  cases res with
  | none =>
    exact ⟨⟨hread.holds, not_made (by simp), hread.unmapped⟩, houter.cons rfl⟩
  | some user =>
    have hid := id_of_findUserById hanswers
    refine ⟨performs_of ⟨hid ▸ hr, hread.holds⟩ (not_made (by simp)),
      fun res before' after' hanswers' => ?_⟩
    have hkept : lockTable.Holds k (⟨.attach identity user.id, res, before', after'⟩ ::
        ⟨.findUserById identity.realm userId, some user, before, after⟩ :: log) :=
      (houter.cons rfl).cons rfl
    cases res with
    | linked found =>
      have hfound := link_of_attach hanswers'
      subst hfound
      exact ⟨⟨hread.holds.cons rfl, not_made (by simp), hid ▸ hr, .here⟩, hkept⟩
    | conflict found =>
      have hholding := hread.cons (x := ⟨.attach identity user.id, .conflict found, before', after'⟩)
        rfl (by simp [Maps])
      exact ⟨⟨hholding.holds, not_made (by simp), hholding.unmapped, identity, user.id, found, rfl,
        hid ▸ hr, .here⟩, hkept⟩

theorem unmapped_nil : Unmapped [] := by simp [Unmapped]

theorem onlyLocks_nil : OnlyLocks [] := by simp [OnlyLocks]

theorem holds_lock {before after : State} :
    lockTable.Holds lockKey (⟨.lock lockKey, (), before, after⟩ :: log) := .inl rfl

/-- Every method does what `Performs` and `Returns` say. -/
theorem methods_spec (lower : LowerCase) (disabledPasswordHash : String) :
    Service.Spec (service lower disabledPasswordHash) (Performs lower) (Returns lower) where
  obeys := by
    intro r
    cases r with
    | resolve input =>
      change Program.Obeys _ _ _ _ (resolve lower disabledPasswordHash input)
      unfold resolve
      cases hnormalized : normalize lower input with
      | error message => exact unmapped_nil
      | ok normalized =>
        refine obeys_locked (K := fun _ => True) (performs_of onlyLocks_nil onlyLocks_nil.settled) ?_
          fun hends _ => returns_unlock hends.returns
        intro before after
        refine (obeys_resolveLocked ⟨input, normalized, rfl, hnormalized, rfl⟩ holds_lock
          onlyLocks_nil.cons).mono (fun _ _ h => h) fun _ _ h => ⟨h, trivial⟩
    | link input userId =>
      change Program.Obeys _ _ _ _ (link lower input userId)
      unfold link
      cases hnormalized : normalizeLink lower input userId with
      | error message => exact unmapped_nil
      | ok normalized =>
        refine obeys_locked (K := fun _ => True) (performs_of onlyLocks_nil onlyLocks_nil.settled) ?_
          fun hends _ => returns_unlock hends.returns
        intro before after
        have houter : OnlyLocks [(⟨.lock (userProviderKey normalized.identity userId), (), before,
          after⟩ : Entry operations State)] := onlyLocks_nil.cons
        refine obeys_locked (K := lockTable.Holds (userProviderKey normalized.identity userId))
          (performs_of houter houter.settled) ?_ ?_
        · intro before' after'
          exact obeys_linkLocked ⟨input, normalized, rfl, hnormalized, rfl⟩ holds_lock
            (holds_lock.cons rfl) houter.cons
        · intro log reply before' after' hends hkept
          refine ⟨⟨.inr ⟨hkept, ?_⟩, not_made (by simp), returns_unlock hends.returns⟩, trivial⟩
          intro hsame
          exact key_ne_userProviderKey _ _ _ (Option.some.inj hsame)
    | list realm userId =>
      refine ⟨performs_of trivial onlyLocks_nil.settled, fun res before after _ =>
        ⟨fun x hx => ?_, realm, userId, rfl, .here⟩⟩
      rcases List.mem_singleton.mp hx with rfl
      simp [Maps]
    | unlink realm userId providerId issuer =>
      refine ⟨performs_of trivial onlyLocks_nil.settled, fun res before after _ =>
        ⟨fun x hx => ?_, realm, userId, providerId, issuer, rfl, .here⟩⟩
      rcases List.mem_singleton.mp hx with rfl
      simp [Maps]

end

end AuthMe.Federation.Mapping.Memory

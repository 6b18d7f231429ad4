import AuthMe.Adapters.Parameters
import AuthMe.Collections.OrderedMap

/-!
# What an adapter is for

A `Shelf` has the artifacts of all realms, each as its readers see it, beside the users. An artifact
belongs to an account at the security version that the account has when the artifact is saved; under
a Grant it is the Grant's account. An artifact is found while it has not expired and its account is
enabled at that version. `Shelf.perform` is one call, and `Shelf.admits` says in which calls the two
adapters are meant to do the same.
-/

namespace AuthMe.Adapters

/-- An artifact as its readers see it: the payload has the consumption in it. -/
@[ext] structure Artifact where
  payload : Payload
  expiresAt : Option Int
  securityVersion : Option Nat
  deriving DecidableEq

def Artifact.live (a : Artifact) (now : Instant) : Bool :=
  match a.expiresAt with
  | none => true
  | some t => now.ms < t

def Artifact.consume (a : Artifact) (now : Instant) : Artifact :=
  { a with payload := { a.payload with consumed := some now.seconds } }

structure Shelf where
  users : String → Uuid → Slot
  artifacts : OrderedMap Key Artifact

/-- A call, from its start to its end. `setUser` stands for the other parts of the program that
create a user or change one; `mutateAccountSecurity` has in `enabled` what its callback makes of the
user. -/
inductive Request
  | upsert (key : Key) (payload : Payload) (expiresIn : Option Int)
  | find (realm model : String) (column : Column)
  | consume (key : Key)
  | claimInitialAccessToken (realm id : String)
  | destroy (key : Key)
  | revokeByGrantId (realm model grantId : String)
  | setUser (realm : String) (user : Uuid) (row : Account)
  | mutateAccountSecurity (realm : String) (user : Uuid) (enabled : Option Bool)
  | deleteAccount (realm : String) (user : Uuid)
  deriving DecidableEq

/-- What the caller sees; an error is `refused`, whatever its class and message. -/
inductive Answer
  | done
  | refused
  | found (payload : Option Payload)
  | claimed (success : Bool)
  | notFound
  deriving DecidableEq

namespace Shelf

variable (sh : Shelf) (now : Instant)

def version (realm accountId : String) : Option Nat :=
  (Uuid.ofText? accountId).bind fun u => enabledVersion (sh.users realm u)

def live? (key : Key) : Option Artifact := (sh.artifacts.get? key).filter (·.live now)

/-- The account of an artifact and its security version, `some none` if it has no account; `none` if
the artifact must not be saved. -/
def binding (realm : String) (p : Payload) : Option (Option (String × Nat)) :=
  match p.grantId with
  | none =>
    match p.accountId with
    | none => some none
    | some a => (sh.version realm a).map fun v => some (a, v)
  | some g =>
    match sh.live? now ⟨realm, "Grant", g⟩ with
    | none => none
    | some grant =>
      match grant.payload.accountId with
      | none => none
      | some a =>
        match sh.version realm a with
        | none => none
        | some v =>
          if grant.securityVersion = some v ∧ (p.accountId = none ∨ p.accountId = some a) then
            some (some (a, v))
          else none

/-- What is saved: the first consumption of a key stays. -/
def bound (key : Key) (p : Payload) (expiresIn : Option Int) (owner : Option (String × Nat)) :
    Artifact where
  payload := { p with
    accountId := owner.map (·.1)
    consumed := ((sh.artifacts.get? key).bind (·.payload.consumed)).or p.consumed }
  expiresAt := expiresIn.map (now.ms + ·)
  securityVersion := owner.map (·.2)

/-- The account is enabled at the version of the artifact. -/
def current (realm : String) (a : Artifact) : Bool :=
  match a.securityVersion with
  | none => true
  | some v => a.payload.accountId.bind (sh.version realm) = some v

def holds (c : Column) (key : Key) (p : Payload) : Bool :=
  match c with
  | .id v => key.id = v
  | .userCode v => p.userCode = some v
  | .uid v => p.uid = some v

def find (realm model : String) (c : Column) : Option (Key × Artifact) :=
  sh.artifacts.findFirst? fun key a =>
    key.realm = realm && key.model = model && holds c key a.payload && a.live now &&
      sh.current realm a

/-- The artifact is put under the key. -/
def put (key : Key) (a : Artifact) : Shelf := { sh with artifacts := sh.artifacts.set key a }

/-- The artifacts that pass the test stay. -/
def keep (p : Key → Artifact → Bool) : Shelf := { sh with artifacts := sh.artifacts.filter p }

@[simp] theorem put_users (key : Key) (a : Artifact) : (sh.put key a).users = sh.users := rfl

@[simp] theorem get?_put (key k : Key) (a : Artifact) :
    (sh.put key a).artifacts.get? k = if k = key then some a else sh.artifacts.get? k :=
  OrderedMap.get?_set _ _ _ _

@[simp] theorem keep_users (p : Key → Artifact → Bool) : (sh.keep p).users = sh.users := rfl

@[simp] theorem get?_keep (p : Key → Artifact → Bool) (k : Key) :
    (sh.keep p).artifacts.get? k = (sh.artifacts.get? k).filter (p k) :=
  OrderedMap.get?_filter _ _ _

def markConsumed (key : Key) : Option Shelf :=
  match sh.live? now key with
  | none => none
  | some a =>
    if a.payload.consumed = none then
      some (sh.put key (a.consume now))
    else none

def withUser (realm : String) (u : Uuid) (slot : Slot) : Shelf :=
  { sh with users := fun r v => if r = realm ∧ v = u then slot else sh.users r v }

@[simp] theorem withUser_users (realm : String) (u : Uuid) (slot : Slot) :
    (sh.withUser realm u slot).users realm u = slot := if_pos ⟨rfl, rfl⟩

theorem withUser_withUser (realm : String) (u : Uuid) (slot slot' : Slot) :
    (sh.withUser realm u slot).withUser realm u slot' = sh.withUser realm u slot' := by
  simp only [withUser, mk.injEq, and_true]
  funext r v
  split <;> rfl

def accountGrant (realm accountId grantId : String) : Bool :=
  match sh.artifacts.get? ⟨realm, "Grant", grantId⟩ with
  | none => false
  | some grant => grant.payload.accountId = some accountId

/-- The artifacts of an account, and those under its Grants. -/
def doomed (realm accountId : String) (key : Key) (a : Artifact) : Bool :=
  key.realm = realm &&
    (a.payload.accountId = some accountId ||
      match a.payload.grantId with
      | none => false
      | some g => sh.accountGrant realm accountId g)

def revokeAccount (realm accountId : String) : Shelf :=
  sh.keep fun key a => !sh.doomed realm accountId key a

/-- What `mutateAccountSecurity` makes of a user: the change of the callback, and the next version. -/
def mutated (row : Account) (enabled : Option Bool) : Account where
  enabled := enabled.getD row.enabled
  securityVersion := row.securityVersion + 1

def perform : Request → Shelf × Answer
  | .upsert key p expiresIn =>
    if key.model = "ReplayDetection" ∧ (sh.artifacts.get? key).isSome then (sh, .refused)
    else
      match sh.binding now key.realm p with
      | none => (sh, .refused)
      | some owner =>
        (sh.put key (sh.bound now key p expiresIn owner), .done)
  | .find realm model c => (sh, .found ((sh.find now realm model c).map (·.2.payload)))
  | .consume key =>
    match sh.markConsumed now key with
    | none => (sh, .refused)
    | some sh' => (sh', .done)
  | .claimInitialAccessToken realm id =>
    match sh.markConsumed now ⟨realm, "InitialAccessToken", id⟩ with
    | none => (sh, .claimed false)
    | some sh' => (sh', .claimed true)
  | .destroy key => ({ sh with artifacts := sh.artifacts.erase key }, .done)
  | .revokeByGrantId realm model g =>
    (sh.keep fun key a => !(key.realm = realm && key.model = model && a.payload.grantId = some g),
      .done)
  | .setUser realm u row =>
    match setUser (sh.users realm u) row with
    | none => (sh, .refused)
    | some slot => (sh.withUser realm u slot, .done)
  | .mutateAccountSecurity realm u enabled =>
    match (sh.users realm u).value? with
    | none => (sh, .notFound)
    | some row =>
      ((sh.withUser realm u (.live (mutated row enabled))).revokeAccount realm u.text, .done)
  | .deleteAccount realm u =>
    match (sh.users realm u).value? with
    | none => (sh, .notFound)
    | some _ => ((sh.withUser realm u .retired).revokeAccount realm u.text, .done)

/-! ## Where the adapters are meant to do the same -/

/-- A name or an identifier is not empty, and PostgreSQL takes it. -/
def proper (text : String) : Bool := text != "" && !text.toList.contains '\x00'

theorem proper_iff {text : String} :
    proper text = true ↔ text ≠ "" ∧ Postgres.asText text = .ok () := by
  simp [proper, Postgres.asText_eq_ok]

def properKey (key : Key) : Bool := proper key.realm && proper key.model && proper key.id

def properColumn : Column → Bool
  | .id v | .userCode v | .uid v => proper v

/-- An account identifier that is there is the text of a `uuid`, in lower case. -/
def canonical (accountId : Option String) : Bool :=
  match accountId with
  | none => true
  | some a => (Uuid.ofText? a).isSome

/-- What `upsert` may be given. -/
def properPayload (p : Payload) (expiresIn : Option Int) : Bool :=
  p.grantId.all proper && p.userCode.all proper && p.uid.all proper && canonical p.accountId &&
    Postgres.asJsonb p.rest = .ok () &&
    (match p.consumed with
      | none => true
      | some c => 0 < c) &&
    match expiresIn with
    | none => true
    | some t => 0 ≤ t

theorem canonical_of_proper {p : Payload} {expiresIn : Option Int}
    (h : properPayload p expiresIn = true) : canonical p.accountId = true := by
  simp only [properPayload, Bool.and_eq_true] at h
  exact h.1.1.1.2

/-- Two payloads have the same user code or the same uid. -/
def shares (p q : Payload) : Bool :=
  (p.userCode.isSome && q.userCode == p.userCode) || (p.uid.isSome && q.uid == p.uid)

theorem shares_comm {p q : Payload} : shares p q = true ↔ shares q p = true := by
  have hside : ∀ {o o' : Option String}, (o.isSome && o' == o) = (o'.isSome && o == o') := by
    intro o o'
    cases o <;> cases o' <;> simp [BEq.comm]
  unfold shares
  rw [hside, hside (o := p.uid)]

/-- Another artifact of the model, expired or not, has a code of the payload. -/
def taken (key : Key) (p : Payload) : Bool :=
  sh.artifacts.entries.any fun x =>
    x.1.realm = key.realm && x.1.model = key.model && x.1.id != key.id && shares p x.2.payload

/-- What is saved again carries no consumption, or the one that is there. -/
def carries (key : Key) (p : Payload) : Bool :=
  match (sh.artifacts.get? key).bind (·.payload.consumed) with
  | none => true
  | some c => p.consumed = none || p.consumed = some c

/-- A key of `ReplayDetection` that is saved again has not expired. -/
def unexpired (key : Key) : Bool :=
  key.model != "ReplayDetection" ||
    match sh.artifacts.get? key with
    | none => true
    | some a => a.live now

/-- The key of `ReplayDetection` is there and has not expired. -/
def replayed (key : Key) : Bool :=
  key.model == "ReplayDetection" && (sh.live? now key).isSome

/-- Both adapters do the same with a payload: they refuse it, or save one artifact. -/
def agrees (key : Key) (p : Payload) : Bool :=
  (sh.binding now key.realm p).isNone || sh.replayed now key ||
    (sh.carries key p && !sh.taken key p && sh.unexpired now key)

def admits : Request → Bool
  | .upsert key p expiresIn =>
    properKey key && properPayload p expiresIn && sh.agrees now key p
  | .find realm model c => proper realm && proper model && properColumn c
  | .consume key | .destroy key => properKey key
  | .claimInitialAccessToken realm id => proper realm && proper id
  | .revokeByGrantId realm model g => proper realm && proper model && proper g
  | .setUser realm u row => (setUser (sh.users realm u) row).isSome
  | .mutateAccountSecurity realm _ _ | .deleteAccount realm _ => proper realm

/-! ## What the shelf is kept in -/

/-- Accounts are `uuid` texts, a consumption is not the second `0`, and no two artifacts of a model
share a code. -/
structure Wf (sh : Shelf) : Prop where
  account : ∀ {key a}, sh.artifacts.get? key = some a → canonical a.payload.accountId = true
  consumed : ∀ {key a c}, sh.artifacts.get? key = some a → a.payload.consumed = some c → 0 < c
  unique : ∀ {k k' a a'}, sh.artifacts.get? k = some a → sh.artifacts.get? k' = some a' →
    k.realm = k'.realm → k.model = k'.model → shares a.payload a'.payload = true → k = k'

theorem wf_empty (users : String → Uuid → Slot) : Wf ⟨users, .empty⟩ where
  account h := by cases h
  consumed h := by cases h
  unique h := by cases h

variable {sh : Shelf} {now : Instant}

/-- A column finds one artifact of a model at most. -/
theorem Wf.holds_unique (hwf : sh.Wf) {c : Column} {k k' : Key} {a a' : Artifact}
    (hk : sh.artifacts.get? k = some a) (hk' : sh.artifacts.get? k' = some a')
    (hrealm : k.realm = k'.realm) (hmodel : k.model = k'.model)
    (hc : holds c k a.payload = true) (hc' : holds c k' a'.payload = true) : k = k' := by
  cases c with
  | id v =>
    simp only [holds, decide_eq_true_eq] at hc hc'
    exact Key.ext hrealm hmodel (hc.trans hc'.symm)
  | userCode v =>
    simp only [holds, decide_eq_true_eq] at hc hc'
    exact hwf.unique hk hk' hrealm hmodel (by simp [shares, hc, hc'])
  | uid v =>
    simp only [holds, decide_eq_true_eq] at hc hc'
    exact hwf.unique hk hk' hrealm hmodel (by simp [shares, hc, hc'])

theorem Wf.withUser (hwf : sh.Wf) (realm : String) (u : Uuid) (slot : Slot) :
    (sh.withUser realm u slot).Wf := ⟨hwf.account, hwf.consumed, hwf.unique⟩

theorem Wf.filter (hwf : sh.Wf) (p : Key → Artifact → Bool) :
    (sh.keep p).Wf := by
  have hkept : ∀ {k a}, (sh.keep p).artifacts.get? k = some a → sh.artifacts.get? k = some a := by
    intro k a h
    rw [get?_keep] at h
    exact (Option.filter_eq_some_iff.mp h).1
  exact ⟨fun h => hwf.account (hkept h), fun h => hwf.consumed (hkept h),
    fun h h' => hwf.unique (hkept h) (hkept h')⟩

theorem Wf.erase (hwf : sh.Wf) (key : Key) : Wf { sh with artifacts := sh.artifacts.erase key } :=
  hwf.filter _

/-- A record is put under a key: what it says of itself, and that no other record has its codes. -/
theorem Wf.set (hwf : sh.Wf) {key : Key} {a : Artifact}
    (haccount : canonical a.payload.accountId = true)
    (hconsumed : ∀ c, a.payload.consumed = some c → 0 < c)
    (hfree : ∀ k a', sh.artifacts.get? k = some a' → k.realm = key.realm → k.model = key.model →
      shares a.payload a'.payload = true → k = key) :
    (sh.put key a).Wf := by
  have hcases : ∀ {k a'}, (sh.put key a).artifacts.get? k = some a' →
      k = key ∧ a' = a ∨ k ≠ key ∧ sh.artifacts.get? k = some a' := by
    intro k a' h
    rw [get?_put] at h
    split at h
    · rename_i hk
      exact .inl ⟨hk, (Option.some.inj h).symm⟩
    · rename_i hk
      exact .inr ⟨hk, h⟩
  refine ⟨?_, ?_, ?_⟩
  · intro k a' h
    rcases hcases h with ⟨-, rfl⟩ | ⟨-, h⟩
    · exact haccount
    · exact hwf.account h
  · intro k a' c h hc
    rcases hcases h with ⟨-, rfl⟩ | ⟨-, h⟩
    · exact hconsumed c hc
    · exact hwf.consumed h hc
  · intro k k' b b' h h' hrealm hmodel hshares
    rcases hcases h with ⟨hk, rfl⟩ | ⟨-, hget⟩ <;> rcases hcases h' with ⟨hk', rfl⟩ | ⟨-, hget'⟩
    · exact hk.trans hk'.symm
    · rw [hk] at hrealm hmodel ⊢
      exact (hfree k' b' hget' hrealm.symm hmodel.symm hshares).symm
    · rw [hk'] at hrealm hmodel ⊢
      exact hfree k b hget hrealm hmodel (shares_comm.mp hshares)
    · exact hwf.unique hget hget' hrealm hmodel hshares

theorem binding_canonical (hwf : sh.Wf) {realm : String} {p : Payload}
    {owner : Option (String × Nat)} (hp : canonical p.accountId = true)
    (h : sh.binding now realm p = some owner) : canonical (owner.map (·.1)) = true := by
  unfold binding at h
  split at h
  · split at h
    · cases h
      rfl
    · rename_i a ha
      obtain ⟨v, -, rfl⟩ := Option.map_eq_some_iff.mp h
      rwa [ha] at hp
  · split at h
    · cases h
    · rename_i grant hgrant
      split at h
      · cases h
      · rename_i a ha
        split at h
        · cases h
        · split at h
          · cases h
            have := hwf.account (Option.filter_eq_some_iff.mp hgrant).1
            rwa [ha] at this
          · cases h

theorem binding_unowned {realm : String} {p : Payload}
    (h : sh.binding now realm p = some none) : p.accountId = none := by
  unfold binding at h
  split at h
  · split at h
    · assumption
    · obtain ⟨v, -, hv⟩ := Option.map_eq_some_iff.mp h
      cases hv
  · split at h
    · cases h
    · split at h
      · cases h
      · split at h
        · cases h
        · split at h <;> cases h

theorem binding_refused {realm : String} {p : Payload} (h : sh.binding now realm p = none) :
    p.accountId.isSome = true ∨ p.grantId.isSome = true := by
  unfold binding at h
  split at h
  · split at h
    · cases h
    · rename_i a ha
      exact .inl (by rw [ha]; rfl)
  · rename_i g hg
    exact .inr (by rw [hg]; rfl)

theorem taken_eq_false {key : Key} {p : Payload} (h : sh.taken key p = false) {k : Key}
    {a : Artifact} (hk : sh.artifacts.get? k = some a) (hrealm : k.realm = key.realm)
    (hmodel : k.model = key.model) (hshares : shares p a.payload = true) : k = key := by
  by_contra hne
  have hid : k.id ≠ key.id := fun hid => hne (Key.ext hrealm hmodel hid)
  have := List.any_eq_false.mp h (k, a) (OrderedMap.mem_entries_iff.mpr hk)
  simp [hrealm, hmodel, hid, hshares] at this

/-- What is accepted on both sides is saved alike. -/
theorem carries_of_agrees {key : Key} {p : Payload} {owner : Option (String × Nat)}
    (h : sh.agrees now key p = true) (howner : sh.binding now key.realm p = some owner)
    (hreplay : ¬(key.model = "ReplayDetection" ∧ (sh.artifacts.get? key).isSome = true)) :
    sh.carries key p = true ∧ sh.taken key p = false ∧ sh.unexpired now key = true := by
  simp only [agrees, howner, Option.isNone_some, Bool.false_or, Bool.or_eq_true, Bool.and_eq_true,
    Bool.not_eq_true'] at h
  rcases h with h | h
  · simp only [replayed, Bool.and_eq_true, beq_iff_eq] at h
    obtain ⟨a, ha⟩ := Option.isSome_iff_exists.mp h.2
    refine absurd ⟨h.1, ?_⟩ hreplay
    rw [(Option.filter_eq_some_iff.mp ha).1, Option.isSome_some]
  · exact ⟨h.1.1, h.1.2, h.2⟩

/-- A key of `ReplayDetection` that is not refused is new. -/
theorem fresh_of_unexpired {key : Key} (h : sh.unexpired now key = true)
    (hreplayed : ¬sh.replayed now key = true) :
    ¬(key.model = "ReplayDetection" ∧ (sh.artifacts.get? key).isSome = true) := by
  rintro ⟨hmodel, hsome⟩
  obtain ⟨a, ha⟩ := Option.isSome_iff_exists.mp hsome
  have hlive : a.live now = true := by
    simpa only [unexpired, hmodel, bne_self_eq_false, Bool.false_or, ha] using h
  exact hreplayed (by simp [replayed, hmodel, Shelf.live?, ha, Option.filter_some, hlive])

theorem Wf.upsert (hwf : sh.Wf) {key : Key} {p : Payload} {expiresIn : Option Int}
    {owner : Option (String × Nat)} (hp : properPayload p expiresIn = true)
    (htaken : sh.taken key p = false) (hbinding : sh.binding now key.realm p = some owner) :
    (sh.put key (sh.bound now key p expiresIn owner)).Wf := by
  simp only [properPayload, Bool.and_eq_true] at hp
  obtain ⟨⟨⟨⟨-, hcanonical⟩, -⟩, hconsumed⟩, -⟩ := hp
  refine hwf.set (binding_canonical hwf hcanonical hbinding) ?_ fun k a' => taken_eq_false htaken
  intro c hc
  rcases Option.or_eq_some_iff.mp hc with hold | ⟨-, hnew⟩
  · obtain ⟨a, ha, hc⟩ := Option.bind_eq_some_iff.mp hold
    exact hwf.consumed ha hc
  · simpa [hnew] using hconsumed

theorem markConsumed_eq_some {sh' : Shelf} {key : Key} (h : sh.markConsumed now key = some sh') :
    ∃ a, sh.artifacts.get? key = some a ∧ a.live now = true ∧ a.payload.consumed = none ∧
      sh' = sh.put key (a.consume now) := by
  unfold markConsumed at h
  split at h
  · cases h
  · rename_i a ha
    split at h
    · rename_i hnone
      obtain ⟨hget, hlive⟩ := Option.filter_eq_some_iff.mp ha
      exact ⟨a, hget, hlive, hnone, (Option.some.inj h).symm⟩
    · cases h

theorem Wf.consume (hwf : sh.Wf) {sh' : Shelf} {key : Key} (h : sh.markConsumed now key = some sh') :
    sh'.Wf := by
  obtain ⟨a, hget, -, -, rfl⟩ := markConsumed_eq_some h
  have haccount : canonical (a.consume now).payload.accountId = true :=
    hwf.account (a := a) hget
  refine hwf.set haccount ?_ fun k a' hk hrealm hmodel hshares =>
    hwf.unique hk hget hrealm hmodel (shares_comm.mp hshares)
  intro c hc
  cases hc
  exact now.seconds_pos

/-- An admitted call leaves a shelf that is well formed. -/
theorem Wf.perform (hwf : sh.Wf) {r : Request} (h : sh.admits now r = true) :
    (sh.perform now r).1.Wf := by
  cases r with
  | upsert key p expiresIn =>
    simp only [admits, Bool.and_eq_true] at h
    obtain ⟨⟨-, hp⟩, hagrees⟩ := h
    simp only [Shelf.perform]
    split
    · exact hwf
    · rename_i hreplay
      split
      · exact hwf
      · rename_i owner howner
        refine hwf.upsert hp ?_ howner
        exact (carries_of_agrees hagrees howner hreplay).2.1
  | find realm model c => exact hwf
  | consume key =>
    simp only [Shelf.perform]
    split
    · exact hwf
    · rename_i sh' hsh'
      exact hwf.consume hsh'
  | claimInitialAccessToken realm id =>
    simp only [Shelf.perform]
    split
    · exact hwf
    · rename_i sh' hsh'
      exact hwf.consume hsh'
  | destroy key => exact hwf.erase key
  | revokeByGrantId realm model g => exact hwf.filter _
  | setUser realm u row =>
    simp only [Shelf.perform]
    split
    · exact hwf
    · exact hwf.withUser _ _ _
  | mutateAccountSecurity realm u enabled =>
    simp only [Shelf.perform]
    split
    · exact hwf
    · exact (hwf.withUser _ _ _).filter _
  | deleteAccount realm u =>
    simp only [Shelf.perform]
    split
    · exact hwf
    · exact (hwf.withUser _ _ _).filter _

/-- A query by a code or an identifier is a query of the one artifact that has it. -/
theorem find_eq_some (hwf : sh.Wf) {realm model : String} {c : Column} {key : Key} {a : Artifact} :
    sh.find now realm model c = some (key, a) ↔ sh.artifacts.get? key = some a ∧
      key.realm = realm ∧ key.model = model ∧ holds c key a.payload = true ∧ a.live now = true ∧
      sh.current realm a = true := by
  constructor
  · intro h
    obtain ⟨hget, hp⟩ := OrderedMap.get?_of_findFirst? h
    simp only [Bool.and_eq_true, decide_eq_true_eq] at hp
    exact ⟨hget, hp.1.1.1.1, hp.1.1.1.2, hp.1.1.2, hp.1.2, hp.2⟩
  · rintro ⟨hget, rfl, rfl, hc, hlive, hcurrent⟩
    refine OrderedMap.findFirst?_eq_some hget (by simp [hc, hlive, hcurrent]) ?_
    intro k' a' hget' hp'
    simp only [Bool.and_eq_true, decide_eq_true_eq] at hp'
    exact hwf.holds_unique hget' hget hp'.1.1.1.1 hp'.1.1.1.2 hp'.1.1.2 hc

end Shelf

end AuthMe.Adapters

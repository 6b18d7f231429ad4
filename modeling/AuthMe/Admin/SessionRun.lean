import AuthMe.Admin.Session

/-!
# Administrator sessions in a run

What holds in every run of the console (`session_validity`):

* a session that is accepted had not expired when the call started, and the user and the
  grant that the call read are enabled and have the versions that the login read which
  created the session;
* a session idles out no later than it expires, and its expiry never moves;
* a rejection is final. The record of a rejected session is gone, and because a value is
  issued once (`Sound.fresh`) no record is created for it again.
-/

namespace AuthMe.Admin

open Service Store
open Transition (Run Always)

abbrev Pool := Service.Pool operations State Request Reply

abbrev Call := Service.Call operations State Request Reply

variable {cfg : Config} {p p' : Pool} {e : Event Request Choice Change}
  {o : Output operations State}

/-! ## Steps of the store -/

/-- What an operation does to the session of a digest. -/
inductive Stored (op : Op) (digest : String) : Option AdminSession → Option AdminSession → Prop
  | same (x : Option AdminSession) : Stored op digest x x
  | gone (x : Option AdminSession) : Stored op digest x none
  | created {session : AdminSession} (hop : op = .createAdminSession session)
      (hdigest : session.idDigest = digest) : Stored op digest none (some session)
  | touched {session : AdminSession} {lastSeenAt idleExpiresAt : Int}
      (hop : op = .touchAdminSession digest idleExpiresAt) :
      Stored op digest (some session)
        (some { session with lastSeenAt := lastSeenAt, idleExpiresAt := idleExpiresAt })

theorem answer_stored {s s' : State} {choice : Choice} {op : Op} {res : op.Res}
    (h : answer cfg s choice op = some (res, s')) (digest : String) :
    Stored op digest (s.tables.findAdminSession digest) (s'.tables.findAdminSession digest) := by
  cases op with
  | randomBytes =>
    simp only [answer] at h
    split at h
    · split at h
      · cases h; exact .same _
      · cases h
    · cases h
  | createAdminSession session =>
    cases hcreate : s.tables.createAdminSession cfg.backend session with
    | none =>
      simp only [answer, hcreate, State.after] at h
      cases h; exact .same _
    | some x =>
      simp only [answer, hcreate, State.after] at h
      cases h
      obtain ⟨-, hnone, hx⟩ := AdminTables.createAdminSession_eq_some hcreate
      simp only [AdminTables.findAdminSession, hx, OrderedMap.get?_set]
      split
      · rename_i hdigest
        subst hdigest
        rw [hnone]
        exact .created rfl rfl
      · exact .same _
  | touchAdminSession d idle =>
    cases htouch : s.tables.touchAdminSession cfg.backend s.clock d idle with
    | none =>
      simp only [answer, htouch, State.after] at h
      cases h; exact .same _
    | some x =>
      simp only [answer, htouch, State.after] at h
      cases h
      obtain ⟨session, hsession, htouched, hx⟩ := AdminTables.touchAdminSession_eq_some htouch
      simp only [AdminTables.findAdminSession, hx, OrderedMap.get?_set]
      split
      · rename_i hdigest
        subst hdigest
        rw [hsession, htouched]
        exact .touched rfl
      · exact .same _
  | deleteAdminSession d =>
    cases h
    simp only [AdminTables.findAdminSession, AdminTables.deleteAdminSession, OrderedMap.get?_erase]
    split
    · exact .gone _
    · exact .same _
  | now | findAdminSession | findUserById | findAdminGrant | writeAudit => cases h; exact .same _

theorem withTables_eq_some {s s' : State} {t : Option AdminTables}
    (h : s.withTables t = some s') : ∃ tables, t = some tables ∧ s' = { s with tables := tables } := by
  obtain ⟨tables, ht, rfl⟩ := Option.map_eq_some_iff.mp h
  exact ⟨tables, ht, rfl⟩

/-- Changes from outside keep a session or remove it. -/
theorem change_stored {s s' : State} {e : Change} (h : change s e = some s') (digest : String) :
    s'.tables.findAdminSession digest = s.tables.findAdminSession digest ∨
      s'.tables.findAdminSession digest = none := by
  have hfilter : ∀ (p : AdminSession → Bool) (x : Option AdminSession),
      x.filter p = x ∨ x.filter p = none := by
    intro p x
    cases x with
    | none => exact .inl rfl
    | some session => by_cases hp : p session = true <;> simp [Option.filter, hp]
  cases e with
  | elapse clock =>
    simp only [change] at h
    split at h
    · cases h; exact .inl rfl
    · cases h
  | deleteUser realm id =>
    obtain ⟨t, ⟨⟩, rfl⟩ := withTables_eq_some h
    simp only [AdminTables.findAdminSession, AdminTables.deleteUser, OrderedMap.get?_filter]
    exact hfilter _ _
  | cleanupExpiredAdminSessions chosen =>
    obtain ⟨t, ⟨⟩, rfl⟩ := withTables_eq_some h
    simp only [AdminTables.findAdminSession, AdminTables.cleanupExpiredAdminSessions,
      OrderedMap.get?_filter]
    exact hfilter _ _
  | upsertAdminGrant realm userId permissions enabled =>
    obtain ⟨t, ht, rfl⟩ := withTables_eq_some h
    simp only [AdminTables.upsertAdminGrant] at ht
    split at ht
    · cases ht; exact .inl rfl
    · cases ht
  | revokeAdminGrant realm userId =>
    obtain ⟨t, ht, rfl⟩ := withTables_eq_some h
    simp only [AdminTables.revokeAdminGrant] at ht
    split at ht
    · cases ht
    · cases ht; exact .inl rfl
  | writeUser | bumpSecurityVersion | restoreAdminGrant =>
    obtain ⟨t, ⟨⟩, rfl⟩ := withTables_eq_some h
    exact .inl rfl

/-- Time does not go back, and digests stay issued. -/
structure Older (s s' : State) : Prop where
  clock : s.clock.ms ≤ s'.clock.ms
  issued : ∀ d ∈ s.issued, d ∈ s'.issued

theorem grows_older (cfg : Config) : Grows (console cfg) Older where
  refl _ := ⟨Int.le_refl _, fun _ h => h⟩
  trans _ _ _ hab hbc := ⟨Int.le_trans hab.clock hbc.clock, fun d h => hbc.issued d (hab.issued d h)⟩
  answer s choice op res s' h := by
    cases op with
    | randomBytes =>
      simp only [console, answer] at h
      split at h
      · split at h
        · cases h
          exact ⟨Int.le_refl _, fun _ h => List.mem_cons_of_mem _ h⟩
        · cases h
      · cases h
    | createAdminSession session =>
      cases hcreate : s.tables.createAdminSession cfg.backend session <;>
        simp only [console, answer, hcreate, State.after] at h <;> cases h <;>
        exact ⟨Int.le_refl _, fun _ h => h⟩
    | touchAdminSession d idle =>
      cases htouch : s.tables.touchAdminSession cfg.backend s.clock d idle <;>
        simp only [console, answer, htouch, State.after] at h <;> cases h <;>
        exact ⟨Int.le_refl _, fun _ h => h⟩
    | now | findAdminSession | findUserById | findAdminGrant | deleteAdminSession | writeAudit =>
      cases h
      exact ⟨Int.le_refl _, fun _ h => h⟩
  change s e s' h := by
    cases e with
    | elapse clock =>
      simp only [console, change] at h
      split at h
      · cases h
        exact ⟨by assumption, fun _ h => h⟩
      · cases h
    | writeUser | bumpSecurityVersion | deleteUser | upsertAdminGrant | revokeAdminGrant
    | restoreAdminGrant | cleanupExpiredAdminSessions =>
      simp only [console, change] at h
      obtain ⟨t, -, rfl⟩ := withTables_eq_some h
      exact ⟨Int.le_refl _, fun _ h => h⟩

/-! ## The invariant -/

/-- Two records of one login: only `lastSeenAt` and `idleExpiresAt` may differ. -/
def SameLogin (s s' : AdminSession) : Prop :=
  s' = { s with lastSeenAt := s'.lastSeenAt, idleExpiresAt := s'.idleExpiresAt }

theorem SameLogin.refl (s : AdminSession) : SameLogin s s := rfl

theorem SameLogin.symm {s s' : AdminSession} (h : SameLogin s s') : SameLogin s' s := by
  unfold SameLogin at *
  rw [h]

theorem SameLogin.trans {s s' s'' : AdminSession} (h : SameLogin s s') (h' : SameLogin s' s'') :
    SameLogin s s'' := by
  unfold SameLogin at *
  rw [h', h]

theorem SameLogin.idDigest {s s' : AdminSession} (h : SameLogin s s') :
    s'.idDigest = s.idDigest := by rw [h]

theorem SameLogin.expiresAt {s s' : AdminSession} (h : SameLogin s s') :
    s'.expiresAt = s.expiresAt := by rw [h]

/-- The session comes from a login of a call, with its details. -/
structure Origin (cfg : Config) (p : Pool) (session created : AdminSession) (realm : String)
    (claims : Claims) (user : User) (grant : AdminGrant) (value : String) : Prop where
  same : SameLogin created session
  call : ∃ n c, p.calls n = some c ∧
    Answered c.log (Op.createAdminSession created) (some created) ∧
    Login cfg c.request c.log created realm claims user grant value

def HasOrigin (cfg : Config) (p : Pool) (session : AdminSession) : Prop :=
  ∃ created realm claims user grant value,
    Origin cfg p session created realm claims user grant value

/-- The invariant of the console. -/
structure Sound (cfg : Config) (p : Pool) : Prop where
  wf : p.Wf
  obeys : p.Obeys (console cfg) (Performs cfg) (Returns cfg)
  issued : ∀ {n c value}, p.calls n = some c → Answered c.log Op.randomBytes value →
    cfg.sessionDigest value ∈ p.store.issued
  fresh : ∀ {n c value n' c' value'}, p.calls n = some c → p.calls n' = some c' →
    Answered c.log Op.randomBytes value → Answered c'.log Op.randomBytes value' →
    cfg.sessionDigest value = cfg.sessionDigest value' → n = n'
  once : ∀ {n c s s' r r'}, p.calls n = some c →
    Answered c.log (Op.createAdminSession s) r → Answered c.log (Op.createAdminSession s') r' →
    s = s'
  stored : ∀ {digest s}, p.store.tables.findAdminSession digest = some s →
    s.idDigest = digest ∧ s.idleExpiresAt ≤ s.expiresAt ∧ HasOrigin cfg p s
  found : ∀ {n c digest s}, p.calls n = some c →
    Answered c.log (Op.findAdminSession digest) (some s) → s.idDigest = digest ∧ HasOrigin cfg p s

theorem Login.mono {request : Request} {log log' : Log} {session : AdminSession}
    {realm : String} {claims : Claims} {user : User} {grant : AdminGrant} {value : String}
    (h : Login cfg request log session realm claims user grant value)
    (hlog : ∀ x ∈ log, x ∈ log') :
    Login cfg request log' session realm claims user grant value :=
  ⟨h.callback, h.session, h.readUser.mono hlog, h.readGrant.mono hlog, h.enabled,
    h.fresh.mono hlog⟩

theorem Login.idDigest {request : Request} {log : Log} {session : AdminSession}
    {realm : String} {claims : Claims} {user : User} {grant : AdminGrant} {value : String}
    (h : Login cfg request log session realm claims user grant value) :
    session.idDigest = cfg.sessionDigest value := by
  obtain ⟨authTime, now, seen, rfl⟩ := h.session
  rfl

/-- The new session idles out no later than it expires. -/
theorem Login.idle {request : Request} {log : Log} {session : AdminSession}
    {realm : String} {claims : Claims} {user : User} {grant : AdminGrant} {value : String}
    (h : Login cfg request log session realm claims user grant value) :
    session.idleExpiresAt ≤ session.expiresAt := by
  obtain ⟨authTime, now, seen, rfl⟩ := h.session
  have hidle : cfg.idleTtl ≤ cfg.ttl := Int.min_le_left _ _
  simp only [newSession]
  omega

theorem HasOrigin.step {session : AdminSession} (hwf : p.Wf) (h : HasOrigin cfg p session)
    (hstep : Service.step (console cfg) p e = some (p', o)) : HasOrigin cfg p' session := by
  obtain ⟨created, realm, claims, user, grant, value, hsame, n, c, hc, hcreate, hlogin⟩ := h
  obtain ⟨c', hc', hext⟩ := extends_of_step hwf hstep hc
  exact ⟨created, realm, claims, user, grant, value, hsame, n, c', hc',
    hcreate.mono fun _ => hext.mem, hext.request ▸ hlogin.mono fun _ => hext.mem⟩

/-- All records with one digest are of one login. -/
theorem Sound.unique (hp : Sound cfg p) {s s' : AdminSession} (h : HasOrigin cfg p s)
    (h' : HasOrigin cfg p s') (hdigest : s.idDigest = s'.idDigest) : SameLogin s s' := by
  obtain ⟨s₀, _, _, _, _, value, hsame, n, c, hc, hcreate, hlogin⟩ := h
  obtain ⟨s₀', _, _, _, _, value', hsame', n', c', hc', hcreate', hlogin'⟩ := h'
  have hvalue : cfg.sessionDigest value = cfg.sessionDigest value' := by
    rw [← hlogin.idDigest, ← hlogin'.idDigest, ← hsame.idDigest, ← hsame'.idDigest, hdigest]
  have hn := hp.fresh hc hc' hlogin.fresh hlogin'.fresh hvalue
  subst hn
  cases hc.symm.trans hc'
  cases hp.once hc hcreate hcreate'
  exact hsame.symm.trans hsame'

theorem randomBytes_eq_some {s s' : State} {choice : Choice} {value : String}
    (h : answer cfg s choice .randomBytes = some (value, s')) :
    cfg.sessionDigest value ∉ s.issued ∧ cfg.sessionDigest value ∈ s'.issued := by
  simp only [answer] at h
  split at h
  · split at h
    · rename_i hvalue
      cases h
      exact ⟨hvalue.2, List.mem_cons_self⟩
    · cases h
  · cases h

theorem now_answer {s s' : State} {choice : Choice} {now : Instant}
    (h : answer cfg s choice .now = some (now, s')) : s.clock = now :=
  congrArg Prod.fst (Option.some.inj h)

theorem findAdminSession_answer {s s' : State} {choice : Choice} {digest : String}
    {res : Option AdminSession}
    (h : answer cfg s choice (.findAdminSession digest) = some (res, s')) :
    s.tables.findAdminSession digest = res :=
  congrArg Prod.fst (Option.some.inj h)

theorem deleteAdminSession_answer {s s' : State} {choice : Choice} {digest : String} {u : Unit}
    (h : answer cfg s choice (.deleteAdminSession digest) = some (u, s')) :
    s'.tables.findAdminSession digest = none := by
  cases h
  exact OrderedMap.get?_erase_self _ _

theorem createAdminSession_answer {s s' : State} {choice : Choice} {session : AdminSession}
    {res : Option AdminSession}
    (h : answer cfg s choice (.createAdminSession session) = some (res, s')) :
    res = some session ∨ s' = s := by
  cases hcreate : s.tables.createAdminSession cfg.backend session with
  | none =>
    simp only [answer, hcreate, State.after] at h
    cases h
    exact .inr rfl
  | some x =>
    simp only [answer, hcreate, State.after] at h
    cases h
    exact .inl (congrArg some (AdminTables.createAdminSession_eq_some hcreate).1)

theorem HasOrigin.same {s s' : AdminSession} (h : HasOrigin cfg p s) (hsame : SameLogin s s') :
    HasOrigin cfg p s' := by
  obtain ⟨created, realm, claims, user, grant, value, hcreated, hcall⟩ := h
  exact ⟨created, realm, claims, user, grant, value, hcreated.trans hsame, hcall⟩

/-- A call that creates a session has not created one before. -/
theorem Sound.first (hp : Sound cfg p) {n : Nat} {c : Call} {session : AdminSession}
    {next : operations.Res (.createAdminSession session) → Console Reply}
    (hc : p.calls n = some c) (hprogram : c.program = .await (Op.createAdminSession session) next) :
    (∃ realm claims user grant value,
      Login cfg c.request c.log session realm claims user grant value) ∧
    ∀ x ∈ c.log, ∀ s, x.op ≠ .createAdminSession s := by
  have hobeys := hp.obeys n c hc
  rw [hprogram] at hobeys
  exact hobeys.1

theorem Sound.initial (cfg : Config) (clock : Instant) (users : Users)
    (grants : OrderedMap UserKey AdminGrant) :
    Sound cfg (.initial (.initial clock users grants)) where
  wf := Pool.wf_initial _
  obeys := nofun
  issued := nofun
  fresh := nofun
  once := nofun
  stored := nofun
  found := nofun

theorem Sound.step (hp : Sound cfg p) (h : Service.step (console cfg) p e = some (p', o)) :
    Sound cfg p' := by
  have hmove := step_move h
  have holder := (grows_older cfg).step h
  refine ⟨hp.wf.step h, (console_spec cfg).step hp.obeys h, ?issued, ?fresh, ?once, ?stored,
    ?found⟩
  case issued =>
    intro n c value hc hvalue
    rcases hmove.answered hc hvalue with ⟨old, hold, hvalue⟩ | ⟨_, _, _, _, _, _, hanswer⟩
    · exact holder.issued _ (hp.issued hold hvalue)
    · exact (randomBytes_eq_some hanswer).2
  case fresh =>
    intro n c value n' c' value' hc hc' hvalue hvalue' hdigest
    rcases hmove.answered hc hvalue with ⟨old, hold, hv⟩ | ⟨_, _, _, he, _, _, hanswer⟩
    · rcases hmove.answered hc' hvalue' with ⟨old', hold', hv'⟩ | ⟨_, _, _, _, _, _, hanswer'⟩
      · exact hp.fresh hold hold' hv hv' hdigest
      · exact absurd (hdigest ▸ hp.issued hold hv) (randomBytes_eq_some hanswer').1
    · rcases hmove.answered hc' hvalue' with ⟨old', hold', hv'⟩ | ⟨_, _, _, he', _, _, -⟩
      · exact absurd (hdigest ▸ hp.issued hold' hv') (randomBytes_eq_some hanswer).1
      · cases he.symm.trans he'
        rfl
  case once =>
    intro n c s s' r r' hc hs hs'
    rcases hmove.answered hc hs with ⟨old, hold, ho⟩ | ⟨old, _, _, _, hold, hprogram, -⟩
    · rcases hmove.answered hc hs' with ⟨old', hold', ho'⟩ | ⟨old', _, _, _, hold', hprogram', -⟩
      · cases hold.symm.trans hold'
        exact hp.once hold ho ho'
      · cases hold.symm.trans hold'
        obtain ⟨_, _, hmem⟩ := ho
        exact absurd rfl ((hp.first hold hprogram').2 _ hmem s)
    · rcases hmove.answered hc hs' with ⟨old', hold', ho'⟩ | ⟨old', _, _, _, hold', hprogram', -⟩
      · cases hold.symm.trans hold'
        obtain ⟨_, _, hmem⟩ := ho'
        exact absurd rfl ((hp.first hold hprogram).2 _ hmem s')
      · cases hold.symm.trans hold'
        cases hprogram.symm.trans hprogram'
        rfl
  case stored =>
    intro digest s hs
    have hkept : p.store.tables.findAdminSession digest = some s → s.idDigest = digest ∧
        s.idleExpiresAt ≤ s.expiresAt ∧ HasOrigin cfg p' s := fun hold =>
      ⟨(hp.stored hold).1, (hp.stored hold).2.1, (hp.stored hold).2.2.step hp.wf h⟩
    cases hmove with
    | start r => exact hkept hs
    | change hchange =>
      rcases change_stored hchange digest with heq | hnone
      · exact hkept (heq ▸ hs)
      · exact absurd (hs.symm.trans hnone) (by simp)
    | @reply n choice c op next res s' hc hprogram hanswer =>
      have hstored := answer_stored hanswer digest
      rw [show s'.tables.findAdminSession digest = some s from hs] at hstored
      generalize hbefore : p.store.tables.findAdminSession digest = before at hstored
      cases hstored with
      | same => exact hkept hbefore
      | created hop hdigest =>
        subst hop
        obtain ⟨⟨realm, claims, user, grant, value, hlogin⟩, -⟩ := hp.first hc hprogram
        have hcreate : answer cfg p.store choice (.createAdminSession s) = some (res, s') := hanswer
        have hres : res = some s := by
          refine (createAdminSession_answer hcreate).resolve_right fun heq => ?_
          subst heq
          exact absurd (hbefore.symm.trans hs) (by simp)
        subst hres
        exact ⟨hdigest, hlogin.idle, s, realm, claims, user, grant, value, .refl s, n,
          c.reply ⟨Op.createAdminSession s, some s, p.store, s'⟩ (next (some s)),
          by simp [Pool.set], .here, hlogin.mono fun _ => List.mem_cons_of_mem _⟩
      | @touched session lastSeenAt idleExpiresAt hop =>
        subst hop
        obtain ⟨hdigest, -, horigin⟩ := hp.stored hbefore
        have hobeys := hp.obeys n c hc
        rw [hprogram] at hobeys
        obtain ⟨read, hread, hidle⟩ := hobeys.1
        obtain ⟨hreadDigest, hreadOrigin⟩ := hp.found hc hread
        have hsame := hp.unique horigin hreadOrigin (hdigest.trans hreadDigest.symm)
        refine ⟨hdigest, ?_, (horigin.same ?_).step hp.wf h⟩
        · rw [hsame.expiresAt] at hidle
          exact hidle
        · rfl
  case found =>
    intro n c digest s hc hs
    rcases hmove.answered hc hs with ⟨old, hold, ho⟩ | ⟨_, choice, _, _, _, _, hanswer⟩
    · exact ⟨(hp.found hold ho).1, (hp.found hold ho).2.step hp.wf h⟩
    · have hread : answer cfg p.store choice (.findAdminSession digest) = some (some s, p'.store) :=
        hanswer
      have hstored := findAdminSession_answer hread
      exact ⟨(hp.stored hstored).1, (hp.stored hstored).2.2.step hp.wf h⟩

theorem Sound.run {tr : List (Event Request Choice Change × Output operations State)}
    (hp : Sound cfg p) (h : Run (Service.step (console cfg)) Always p tr p') : Sound cfg p' :=
  h.invariant (fun _ _ _ _ hp _ h => hp.step h) hp

/-! ## Sessions that are gone -/

/-- There has been a session with this digest, and its record is gone. -/
structure Dead (cfg : Config) (digest : String) (p : Pool) : Prop where
  gone : p.store.tables.findAdminSession digest = none
  origin : ∃ session, session.idDigest = digest ∧ HasOrigin cfg p session

theorem HasOrigin.run {tr : List (Event Request Choice Change × Output operations State)}
    {session : AdminSession} (hp : Sound cfg p) (h : HasOrigin cfg p session)
    (hrun : Run (Service.step (console cfg)) Always p tr p') : HasOrigin cfg p' session :=
  (hrun.invariant (I := fun p => Sound cfg p ∧ HasOrigin cfg p session)
    (fun _ _ _ _ hI _ h => ⟨hI.1.step h, hI.2.step hI.1.wf h⟩) ⟨hp, h⟩).2

/-- No record is created for the digest of another session. -/
theorem Dead.step {digest : String} (hp : Sound cfg p) (hdead : Dead cfg digest p)
    (h : Service.step (console cfg) p e = some (p', o)) : Dead cfg digest p' := by
  obtain ⟨hgone, session, hdigest, horigin⟩ := hdead
  refine ⟨?_, session, hdigest, horigin.step hp.wf h⟩
  cases step_move h with
  | start r => exact hgone
  | change hchange =>
    rcases change_stored hchange digest with heq | hnone
    · exact heq.trans hgone
    · exact hnone
  | @reply n choice c op next res s' hc hprogram hanswer =>
    have hstored := answer_stored hanswer digest
    rw [hgone] at hstored
    change s'.tables.findAdminSession digest = none
    generalize s'.tables.findAdminSession digest = after at hstored
    cases hstored with
    | same | gone => rfl
    | created hop hcreated =>
      subst hop
      obtain ⟨⟨realm, claims, user, grant, value, hlogin⟩, hfirst⟩ := hp.first hc hprogram
      obtain ⟨s₀, _, _, _, _, value', hsame, n', c', hc', hcreate', hlogin'⟩ := horigin
      have hvalue : cfg.sessionDigest value = cfg.sessionDigest value' := by
        rw [← hlogin.idDigest, hcreated, ← hdigest, hsame.idDigest, hlogin'.idDigest]
      have hn := hp.fresh hc hc' hlogin.fresh hlogin'.fresh hvalue
      subst hn
      cases hc.symm.trans hc'
      obtain ⟨_, _, hmem⟩ := hcreate'
      exact absurd rfl (hfirst _ hmem s₀)

theorem Dead.run {digest : String}
    {tr : List (Event Request Choice Change × Output operations State)} (hp : Sound cfg p)
    (hdead : Dead cfg digest p) (h : Run (Service.step (console cfg)) Always p tr p') :
    Dead cfg digest p' :=
  (h.invariant (I := fun p => Sound cfg p ∧ Dead cfg digest p)
    (fun _ _ _ _ hI _ h => ⟨hI.1.step h, hI.2.step hI.1 h⟩) ⟨hp, hdead⟩).2

/-- A call that starts reading while there is a session, or later, and rejects its value,
leaves no record behind. -/
theorem dead_of_rejects {tr : List (Event Request Choice Change × Output operations State)}
    {value : String} {session : AdminSession} {n : Nat} {c : Call} (hp : Sound cfg p)
    (hsession : p.store.tables.findAdminSession (cfg.sessionDigest value) = some session)
    (hunread : ∀ old, p.calls n = some old → old.log = [])
    (hrun : Run (Service.step (console cfg)) Always p tr p') (hc : p'.calls n = some c)
    (hvalue : isSessionValue value = true) (h : Rejects cfg (some value) c.log) :
    Dead cfg (cfg.sessionDigest value) p' := by
  have hstored := hp.stored hsession
  have hold : ∀ old, p.calls n = some old → ∀ x ∈ old.log, False := by
    intro old hold x hx
    rw [hunread old hold] at hx
    cases hx
  rcases h with hnone | ⟨_, ⟨⟩, ⟨before, after, hx⟩ | ⟨before, after, hx⟩⟩
  · simp [Option.filter, hvalue] at hnone
  · rcases Run.entry hrun hc hx with
      ⟨old, ho, hx⟩ | ⟨tr₁, tr₂, choice, m, m', rfl, hbefore, hat, hanswer, -, -, hafter⟩
    · exact (hold old ho _ hx).elim
    · have hread : answer cfg m.store choice (.findAdminSession (cfg.sessionDigest value)) =
          some (none, m'.store) := hanswer
      have hdead : Dead cfg (cfg.sessionDigest value) m :=
        ⟨findAdminSession_answer hread, session, hstored.1, hstored.2.2.run hp hbefore⟩
      exact hdead.run (hp.run hbefore) (.cons trivial hat hafter)
  · rcases Run.entry hrun hc hx with
      ⟨old, ho, hx⟩ | ⟨tr₁, tr₂, choice, m, m', rfl, hbefore, hat, hanswer, -, -, hafter⟩
    · exact (hold old ho _ hx).elim
    · have hdelete : answer cfg m.store choice (.deleteAdminSession (cfg.sessionDigest value)) =
          some ((), m'.store) := hanswer
      have hbefore' := hbefore.append (.single trivial hat)
      have hdead : Dead cfg (cfg.sessionDigest value) m' :=
        ⟨deleteAdminSession_answer hdelete, session, hstored.1, hstored.2.2.run hp hbefore'⟩
      exact hdead.run (hp.run hbefore') hafter

/-! ## The law -/

/-- What holds of a reachable state of the console, and of the runs from it. -/
structure SessionLaw (cfg : Config) (p : Pool) : Prop where
  /-- A call that accepts: what it has read, and the login that created the session. -/
  accepted : ∀ {n c sessionValue result}, p.calls n = some c →
    c.request = .authenticate sessionValue →
    c.program = .done (.authentication (some result)) →
    ∃ value session now created realm claims user grant issued,
      Accepts cfg sessionValue c.log result value session now ∧
      c.begun.clock.ms < session.expiresAt ∧ c.begun.clock.ms < session.idleExpiresAt ∧
      Origin cfg p session created realm claims user grant issued ∧
      result.user.enabled = true ∧ result.user.securityVersion = user.securityVersion ∧
      result.grant.enabled = true ∧ result.grant.version = grant.version
  idle : ∀ {digest session}, p.store.tables.findAdminSession digest = some session →
    session.idleExpiresAt ≤ session.expiresAt
  expiry : ∀ {tr p' digest session session'}, Run (Service.step (console cfg)) Always p tr p' →
    p.store.tables.findAdminSession digest = some session →
    p'.store.tables.findAdminSession digest = some session' →
    session'.expiresAt = session.expiresAt
  /-- A call that reads nothing before this state rejects the value of a session that is
  there; no call that starts later accepts it. -/
  final : ∀ {value session n c n' c' tr tr' q r result},
    p.store.tables.findAdminSession (cfg.sessionDigest value) = some session →
    (∀ old, p.calls n = some old → old.log = []) →
    Run (Service.step (console cfg)) Always p tr q → q.calls n = some c →
    c.request = .authenticate (some value) → c.program = .done (.authentication none) →
    Run (Service.step (console cfg)) Always q tr' r → q.calls n' = none →
    r.calls n' = some c' → c'.request = .authenticate (some value) →
    c'.program ≠ .done (.authentication (some result))

variable {clock : Instant} {users : Users} {grants : OrderedMap UserKey AdminGrant}
  {tr : List (Event Request Choice Change × Output operations State)}

/-- A reading of the clock is no earlier than the start of the call. -/
theorem begun_le_now
    (h : Run (Service.step (console cfg)) Always (.initial (.initial clock users grants)) tr p)
    {n : Nat} {c : Call} (hc : p.calls n = some c) {now : Instant}
    (hnow : Answered c.log Op.now now) : c.begun.clock.ms ≤ now.ms := by
  obtain ⟨before, after, hx⟩ := hnow
  have holder := ((grows_older cfg).begun h hc).2 _ hx
  obtain ⟨choice, hanswer⟩ := Run.answers h hc _ hx
  have hread : answer cfg before choice .now = some (now, after) := hanswer
  rw [← now_answer hread]
  exact holder.clock

/-- **Administrator session validity.** The law holds in every state that a run of the
console reaches from a store without sessions. -/
theorem session_validity
    (h : Run (Service.step (console cfg)) Always (.initial (.initial clock users grants)) tr p) :
    SessionLaw cfg p := by
  have hp : Sound cfg p := (Sound.initial cfg clock users grants).run h
  refine ⟨?accepted, fun hs => (hp.stored hs).2.1, ?expiry, ?final⟩
  case accepted =>
    intro n c sessionValue result hc hrequest hdone
    obtain ⟨value, session, now, haccepts⟩ :=
      (console_spec cfg).finished h hc hdone sessionValue _ hrequest rfl
    obtain ⟨-, created, realm, claims, user, grant, issued, horigin⟩ :=
      hp.found hc haccepts.found
    have hbegun := begun_le_now h hc haccepts.time.1
    have hdate := haccepts.upToDate
    simp only [upToDate, Bool.and_eq_true, decide_eq_true_eq] at hdate
    obtain ⟨_, _, -, -, hlogin⟩ := horigin.call
    obtain ⟨authTime, made, seen, hcreated⟩ := hlogin.session
    have hsame := horigin.same
    rw [hcreated] at hsame
    refine ⟨value, session, now, created, realm, claims, user, grant, issued, haccepts,
      Int.lt_of_le_of_lt hbegun haccepts.time.2.1, Int.lt_of_le_of_lt hbegun haccepts.time.2.2,
      horigin, hdate.1.1.1, ?_, hdate.1.2, ?_⟩
    · rw [hdate.1.1.2, hsame]
      rfl
    · rw [hdate.2, hsame]
      rfl
  case expiry =>
    intro tr' p' digest session session' hrun hs hs'
    have hp' := hp.run hrun
    have horigin := (hp.stored hs).2.2.run hp hrun
    have hdigest := (hp.stored hs).1.trans (hp'.stored hs').1.symm
    exact (hp'.unique horigin (hp'.stored hs').2.2 hdigest).expiresAt
  case final =>
    intro value session n c n' c' tr₁ tr₂ q r result hs hunread hrun₁ hc hrequest hdone hrun₂ hnew
      hc' hrequest' hdone'
    obtain ⟨value', session', now, haccepts⟩ := (console_spec cfg).finished
      ((h.append hrun₁).append hrun₂) hc' hdone' _ _ hrequest' rfl
    have hcookie := Option.filter_eq_some_iff.mp haccepts.cookie.1
    cases hcookie.1
    have hrejects := (console_spec cfg).finished (h.append hrun₁) hc hdone _ _ hrequest rfl
    have hdead := dead_of_rejects hp hs hunread hrun₁ hc hcookie.2 hrejects
    obtain ⟨before, after, hx⟩ := haccepts.found
    rcases Run.entry hrun₂ hc' hx with
      ⟨old, ho, -⟩ | ⟨tr₁, tr₂, choice, m, m', rfl, hbefore, hat, hanswer, -, -, hafter⟩
    · rw [hnew] at ho
      cases ho
    · have hread : answer cfg m.store choice (.findAdminSession (cfg.sessionDigest value)) =
          some (some session', m'.store) := hanswer
      have hgone := (hdead.run (hp.run hrun₁) hbefore).gone
      rw [findAdminSession_answer hread] at hgone
      cases hgone

/-! ## A run -/

/-- A console with one realm, on the in-memory store. -/
def someConsole : Config where
  realms := ["master"]
  sessionTtl := 28800
  devMode := false
  backend := .memory
  sessionDigest := id

/-- One administrator, Alice. -/
def someState : State :=
  .initial ⟨1000000, by decide⟩
    (OrderedMap.empty.set ("master", "alice")
      { realm := "master", id := "alice", username := "alice", email := "alice@example.org" })
    (OrderedMap.empty.set ("master", "alice") ⟨["*"], true, 1⟩)

def cookie : String := "AAAAAAAAAAAAAAAAAAAAAAAAAAAAAAAAAAAAAAAAAAA"

/-- Alice logs in, and a request with her cookie is accepted. -/
theorem login_run : ∃ tr p c result,
    Run (Service.step (console someConsole)) Always (.initial someState) tr p ∧
      p.calls 1 = some c ∧ c.program = .done (.authentication (some result)) := by
  have h : Transition.exec (Service.step (console someConsole)) Always (.initial someState)
      [.start (.callback "master" ⟨"alice", some 1000, ["pwd", "otp"]⟩ none), .resume 0 .none,
        .resume 0 .none, .resume 0 .none, .resume 0 .none, .resume 0 (.bytes cookie),
        .resume 0 .none, .resume 0 .none, .resume 0 .none,
        .start (.authenticate (some cookie)), .resume 1 .none, .resume 1 .none, .resume 1 .none,
        .resume 1 .none] = some (_, _) := rfl
  exact ⟨_, _, _, _, .of_exec h, rfl, rfl⟩

theorem session_validity_login : ∃ p c result, SessionLaw someConsole p ∧
    p.calls 1 = some c ∧ c.program = .done (.authentication (some result)) := by
  obtain ⟨_, p, c, result, hrun, hc, hdone⟩ := login_run
  exact ⟨p, c, result, session_validity hrun, hc, hdone⟩

end AuthMe.Admin

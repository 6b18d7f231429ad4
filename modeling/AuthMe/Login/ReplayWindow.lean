import AuthMe.Login.Saml

/-!
# How long a replay record has to live

`assertionDetails` widens the dates of a bearer confirmation by the clock skew at both ends, so a
confirmation that is valid for `maxAssertionAgeMs` is accepted for twice the skew longer. The check of
`createSamlBroker` adds the skew once. A replay record outlives every confirmation of that age exactly
where `replayTtlMs` covers the skew at both ends (`outlives_iff`).
-/

namespace AuthMe.Login

/-! ## The limits of a broker -/

/-- `integer(value, name, minimum, maximum)`. -/
def integer (value : Int) (name : String) (minimum maximum : Int) :
    Except String (PLift (minimum ≤ value ∧ value ≤ maximum)) :=
  if h : minimum ≤ value ∧ value ≤ maximum then .ok ⟨h⟩
  else .error (name ++ " must be an integer between " ++ toString minimum ++ " and " ++
    toString maximum)

/-- The times that `createSamlBroker` has accepted. -/
structure SamlLimits where
  requestTtlMs : Int
  clockSkewMs : Int
  maxAssertionAgeMs : Int
  replayTtlMs : Int
  requestTtl : 30000 ≤ requestTtlMs ∧ requestTtlMs ≤ 30 * 60 * 1000
  clockSkew : 0 ≤ clockSkewMs ∧ clockSkewMs ≤ 5 * 60 * 1000
  maxAssertionAge : 30000 ≤ maxAssertionAgeMs ∧ maxAssertionAgeMs ≤ 30 * 60 * 1000
  replayTtl : maxAssertionAgeMs + clockSkewMs ≤ replayTtlMs ∧ replayTtlMs ≤ 60 * 60 * 1000

/-- The checks of `createSamlBroker`, in their order. -/
def samlLimits (requestTtlMs clockSkewMs maxAssertionAgeMs replayTtlMs : Int) :
    Except String SamlLimits := do
  let requestTtl ← integer requestTtlMs "requestTtlMs" 30000 (30 * 60 * 1000)
  let clockSkew ← integer clockSkewMs "clockSkewMs" 0 (5 * 60 * 1000)
  let maxAssertionAge ← integer maxAssertionAgeMs "maxAssertionAgeMs" 30000 (30 * 60 * 1000)
  let replayTtl ← integer replayTtlMs "replayTtlMs" (maxAssertionAgeMs + clockSkewMs)
    (60 * 60 * 1000)
  return ⟨requestTtlMs, clockSkewMs, maxAssertionAgeMs, replayTtlMs, requestTtl.down,
    clockSkew.down, maxAssertionAge.down, replayTtl.down⟩

/-! ## The cache between two responses -/

inductive CacheOp
  | putIfAbsent (key : ReplayKey) (value : ReplayValue) (ttlMs : Int)
  | get (key : ReplayKey)
  | consume (key : ReplayKey)
  deriving DecidableEq

structure CacheCall where
  now : Instant
  op : CacheOp

namespace ReplayCache

variable {kind : CacheKind} {cache : ReplayCache} {key : ReplayKey}

def call (kind : CacheKind) (cache : ReplayCache) (c : CacheCall) : ReplayCache :=
  match c.op with
  | .putIfAbsent key value ttlMs => (cache.putIfAbsent kind c.now key value ttlMs).2
  | .get _ => cache
  | .consume key => (cache.consume kind c.now key).2

def calls (kind : CacheKind) (cache : ReplayCache) (cs : List CacheCall) : ReplayCache :=
  cs.foldl (call kind) cache

/-- A record of the key is in the cache, and has not expired. -/
def Holds (cache : ReplayCache) (key : ReplayKey) (now : Instant) : Prop :=
  ∃ r, cache.get? key = some r ∧ r.live now = true

theorem get?_putIfAbsent_of_ne {now : Instant} {value : ReplayValue} {ttlMs : Int}
    {other : ReplayKey} (hne : other ≠ key) :
    (cache.putIfAbsent kind now key value ttlMs).2.get? other = cache.get? other := by
  unfold putIfAbsent
  split
  · exact OrderedMap.get?_set_of_ne _ hne _
  · split
    · rfl
    · split
      · exact OrderedMap.get?_set_of_ne _ hne _
      · exact OrderedMap.get?_set_of_ne _ hne _
      · rfl

/-- A record that is live stays as it is, unless it is consumed. -/
theorem get?_call {r : ReplayRecord} (hr : cache.get? key = some r) {c : CacheCall}
    (hlive : r.live c.now = true) (hconsume : c.op ≠ .consume key) :
    (cache.call kind c).get? key = some r := by
  unfold call
  split
  · rename_i other value ttlMs hop
    by_cases hother : key = other
    · subst hother
      unfold putIfAbsent
      rw [hr]
      dsimp only
      rw [if_pos hlive]
      exact hr
    · rw [get?_putIfAbsent_of_ne hother, hr]
  · exact hr
  · rename_i other hop
    rcases get?_consume kind c.now cache other key with hsame | ⟨heq, -⟩
    · rw [hsame, hr]
    · subst heq
      exact absurd hop hconsume

theorem get?_calls {r : ReplayRecord} (hr : cache.get? key = some r) {cs : List CacheCall}
    (hcs : ∀ c ∈ cs, r.live c.now = true ∧ c.op ≠ .consume key) :
    (cache.calls kind cs).get? key = some r := by
  induction cs generalizing cache with
  | nil => exact hr
  | cons c cs ih =>
    obtain ⟨hlive, hconsume⟩ := hcs c List.mem_cons_self
    have hnext : (cache.call kind c).get? key = some r := get?_call hr hlive hconsume
    exact ih hnext fun d hd => hcs d (List.mem_cons_of_mem _ hd)

end ReplayCache

/-! ## The window -/

/-- `assertionDetails` accepts the assertion because of the confirmation. -/
structure AcceptedBy (profile : SamlProfile) (p : SamlProvider) (requestId assertionId : String)
    (c : Confirmation) (t : Instant) : Prop where
  details : assertionDetails profile p requestId t = some assertionId
  mem : c ∈ profile.confirmations
  valid : c.isValid p requestId t = true

/-- The record that is written when an assertion is accepted is still there whenever the same
confirmation, of an age that is allowed, is accepted again. Other calls of the cache can come between,
but nobody consumes the record of an assertion. -/
def SamlLimits.Outlives (l : SamlLimits) : Prop :=
  ∀ (p : SamlProvider) (profile : SamlProfile) (realm requestId assertionId : String)
    (c : Confirmation) (notBefore notOnOrAfter : Int) (t₀ t₁ : Instant),
    p.clockSkewMs = l.clockSkewMs → p.replayTtlMs = l.replayTtlMs →
    c.notBefore = some (some notBefore) → c.notOnOrAfter = some notOnOrAfter →
    notOnOrAfter - notBefore ≤ l.maxAssertionAgeMs →
    AcceptedBy profile p requestId assertionId c t₀ →
    AcceptedBy profile p requestId assertionId c t₁ → t₀.ms ≤ t₁.ms →
    ∀ (kind : CacheKind) (cache cache' : ReplayCache) (cs : List CacheCall),
      cache.putIfAbsent kind t₀ (p.key realm .assertion assertionId) .used p.replayTtlMs =
        (true, cache') →
      (∀ call ∈ cs, call.now.ms ≤ t₁.ms ∧
        call.op ≠ .consume (p.key realm .assertion assertionId)) →
      (cache'.calls kind cs).Holds (p.key realm .assertion assertionId) t₁

/-- The dates between which a confirmation is accepted. -/
theorem isValid_iff {c : Confirmation} {p : SamlProvider} {requestId : String} {t : Instant}
    {notBefore notOnOrAfter : Int} (hbefore : c.notBefore = some (some notBefore))
    (hafter : c.notOnOrAfter = some notOnOrAfter) : c.isValid p requestId t = true ↔
      (c.bearer = true ∧ c.recipient = p.assertionConsumerServiceUrl ∧ c.inResponseTo = requestId) ∧
        notBefore - p.clockSkewMs ≤ t.ms ∧ t.ms < notOnOrAfter + p.clockSkewMs := by
  have hdates : (notBefore ≤ t.ms + p.clockSkewMs ∧ t.ms - p.clockSkewMs < notOnOrAfter) ↔
      notBefore - p.clockSkewMs ≤ t.ms ∧ t.ms < notOnOrAfter + p.clockSkewMs := by omega
  simp only [Confirmation.isValid, hbefore, hafter, Bool.and_eq_true, decide_eq_true_eq, hdates,
    and_assoc]

theorem outlives_of_le {l : SamlLimits}
    (h : l.maxAssertionAgeMs + 2 * l.clockSkewMs ≤ l.replayTtlMs) : l.Outlives := by
  intro p profile realm requestId assertionId c notBefore notOnOrAfter t₀ t₁ hskew httl hbefore
    hafter hage h₀ h₁ hle kind cache cache' cs hput hcs
  obtain ⟨-, consumed, rfl⟩ := ReplayCache.putIfAbsent_eq_true hput
  obtain ⟨-, hfrom, -⟩ := (isValid_iff hbefore hafter).mp h₀.valid
  obtain ⟨-, -, huntil⟩ := (isValid_iff hbefore hafter).mp h₁.valid
  have hlive : t₁.ms < t₀.ms + p.replayTtlMs := by omega
  refine ⟨⟨.used, t₀.ms + p.replayTtlMs, consumed⟩, ?_, decide_eq_true hlive⟩
  apply ReplayCache.get?_calls (OrderedMap.get?_set_self ..)
  intro call hcall
  obtain ⟨hnow, hconsume⟩ := hcs call hcall
  have hcalled : call.now.ms < t₀.ms + p.replayTtlMs := by omega
  exact ⟨decide_eq_true hcalled, hconsume⟩

/-! ### The widest window -/

/-- A provider with the limits. -/
def SamlLimits.provider (l : SamlLimits) : SamlProvider :=
  { id := "workforce"
    assertionConsumerServiceUrl := "https://login.example.test/acs"
    entityId := "https://idp.example.test"
    jitProvisioning := false
    requestTtlMs := l.requestTtlMs
    clockSkewMs := l.clockSkewMs
    replayTtlMs := l.replayTtlMs }

/-- A confirmation of the greatest age that is allowed. -/
def SamlLimits.oldest (l : SamlLimits) : Confirmation :=
  { bearer := true
    recipient := "https://login.example.test/acs"
    inResponseTo := "request"
    notBefore := some (some (l.clockSkewMs + 1000))
    notOnOrAfter := some (l.clockSkewMs + 1000 + l.maxAssertionAgeMs) }

def SamlLimits.profile (l : SamlLimits) : SamlProfile :=
  ⟨"https://idp.example.test", "ada", "request", some "assertion", [l.oldest]⟩

theorem one_second : (1000 : Int) ≤ 1000 := Int.le_refl _

/-- The first instant at which the confirmation is accepted. -/
def firstAccepted : Instant := ⟨1000, one_second⟩

/-- The last one. -/
def SamlLimits.lastAccepted (l : SamlLimits) : Instant :=
  ⟨999 + l.maxAssertionAgeMs + 2 * l.clockSkewMs, by
    have hskew := l.clockSkew.1
    have hage := l.maxAssertionAge.1
    omega⟩

theorem acceptedBy_oldest (l : SamlLimits) {t : Instant} (hfrom : 1000 ≤ t.ms)
    (huntil : t.ms < 1000 + l.maxAssertionAgeMs + 2 * l.clockSkewMs) :
    AcceptedBy l.profile l.provider "request" "assertion" l.oldest t := by
  have hvalid : l.oldest.isValid l.provider "request" t = true := by
    refine (isValid_iff rfl rfl).mpr ⟨⟨rfl, rfl, rfl⟩, ?_, ?_⟩
    · change l.clockSkewMs + 1000 - l.clockSkewMs ≤ t.ms
      omega
    · change t.ms < l.clockSkewMs + 1000 + l.maxAssertionAgeMs + l.clockSkewMs
      omega
  refine ⟨?_, List.mem_singleton_self _, hvalid⟩
  have hany : (l.profile.confirmations.any fun c => c.isValid l.provider "request" t) = true :=
    List.any_eq_true.mpr ⟨l.oldest, List.mem_singleton_self _, hvalid⟩
  rw [assertionDetails, if_pos hany]
  rfl

theorem le_of_outlives {l : SamlLimits} (h : l.Outlives) :
    l.maxAssertionAgeMs + 2 * l.clockSkewMs ≤ l.replayTtlMs := by
  have hskew := l.clockSkew.1
  have hage := l.maxAssertionAge.1
  have hfirst : AcceptedBy l.profile l.provider "request" "assertion" l.oldest firstAccepted := by
    apply acceptedBy_oldest
    · exact Int.le_refl _
    · change 1000 < 1000 + l.maxAssertionAgeMs + 2 * l.clockSkewMs
      omega
  have hlast : AcceptedBy l.profile l.provider "request" "assertion" l.oldest l.lastAccepted := by
    apply acceptedBy_oldest
    · exact l.lastAccepted.afterEpoch
    · change 999 + l.maxAssertionAgeMs + 2 * l.clockSkewMs < _
      omega
  have hholds := h l.provider l.profile "staff" "request" "assertion" l.oldest _ _ firstAccepted
    l.lastAccepted rfl rfl rfl rfl (by omega) hfirst hlast l.lastAccepted.afterEpoch .process
    .empty _ [] rfl (by simp)
  obtain ⟨r, hr, hlive⟩ := hholds
  change (OrderedMap.empty.set _ _).get? _ = _ at hr
  rw [OrderedMap.get?_set_self] at hr
  cases hr
  have hlt : 999 + l.maxAssertionAgeMs + 2 * l.clockSkewMs < 1000 + l.replayTtlMs :=
    of_decide_eq_true hlive
  omega

/-- The replay records of a configuration outlive every assertion of the allowed age exactly where
their life covers that age and the clock skew at both ends. -/
theorem outlives_iff (l : SamlLimits) :
    l.Outlives ↔ l.maxAssertionAgeMs + 2 * l.clockSkewMs ≤ l.replayTtlMs :=
  ⟨le_of_outlives, outlives_of_le⟩

/-- Six minutes are accepted for five minutes and a skew of one. -/
def shortRetention : SamlLimits :=
  ⟨300000, 60000, 300000, 360000, by omega, by omega, by omega, by omega⟩

/-- The assertion is accepted twice, and the second time its record is gone and can be written
again. -/
theorem replay_after_expiry :
    samlLimits 300000 60000 300000 360000 = .ok shortRetention ∧
    assertionDetails shortRetention.profile shortRetention.provider "request" firstAccepted =
      some "assertion" ∧
    assertionDetails shortRetention.profile shortRetention.provider "request"
      ⟨361000, by omega⟩ = some "assertion" ∧
    (ReplayCache.putIfAbsent .process ⟨361000, by omega⟩
      (ReplayCache.putIfAbsent .process firstAccepted .empty
        (shortRetention.provider.key "staff" .assertion "assertion") .used 360000).2
      (shortRetention.provider.key "staff" .assertion "assertion") .used 360000).1 = true ∧
    ¬ shortRetention.Outlives := by
  refine ⟨rfl, rfl, rfl, rfl, ?_⟩
  rw [outlives_iff]
  decide

end AuthMe.Login

import AuthMe.Admin.Agreement

/-!
# Authorization of console sessions

A request of a console session that reaches a handler has passed the checks that the
handler's own method and path ask for, with one exception: a `HEAD` request is served by
the handler of `GET`, while `requiredAdminPermission` gives it the permission of a
mutation on the three paths of `userReads`.
-/

namespace AuthMe.Admin.Api

open Http Store

/-! ## What a request that reaches a handler has passed -/

section Walk

variable {cfg : Settings} {findAdminGrant : Grants} {req : Request} {access : Access}

/-- If the layer is a guard that matches the path, it lets the request through. -/
def Layer.Passes (cfg : Settings) (findAdminGrant : Grants) (req : Request) (access : Access)
    (l : Layer) : Prop :=
  ∀ captures params, l.match req.path.toList = some captures →
    decodeParams captures = some params →
      match l with
      | .route _ => True
      | .realmGuard => guardRealm cfg params = none
      | .targetGuard => guardTarget findAdminGrant req.method access params = none

/-- The route matches the path and serves the method, with these parameters. -/
structure Route.Serves (r : Route) (cfg : Settings) (req : Request) (params : Params) : Prop where
  handles : r.handles req.method = true
  valid : checkParams cfg params = none
  matched : ∃ captures, expressMatch (pattern r.path) req.path.toList = some captures ∧
    decodeParams captures = some params

/-- No handler is reached once a parameter could not be decoded. -/
theorem walk_failed {ls : List Layer} {r : Route} {params : Params} :
    walk cfg findAdminGrant req access ls true ≠ .handler r params := by
  induction ls with
  | nil => exact nofun
  | cons layer rest ih =>
    cases layer with
    | route r' =>
      simp only [walk, true_or, if_true]
      split
      · exact ih
      · split <;> exact ih
    | realmGuard =>
      simp only [walk, if_true]
      split
      · exact ih
      · split <;> exact ih
    | targetGuard =>
      simp only [walk, if_true]
      split
      · exact ih
      · split
        · exact ih
        · split
          · exact nofun
          · exact ih

/-- One layer: the handler is the one of this layer, or of a later one. -/
theorem walk_cons {layer : Layer} {rest : List Layer} {failed : Bool} {r : Route}
    {params : Params}
    (h : walk cfg findAdminGrant req access (layer :: rest) failed = .handler r params) :
    layer = .route r ∧ r.Serves cfg req params ∨
      ∃ failed', walk cfg findAdminGrant req access rest failed' = .handler r params ∧
        (failed' = false → layer.Passes cfg findAdminGrant req access) := by
  simp only [walk] at h
  split at h
  · rename_i hmatch
    exact .inr ⟨failed, h, fun _ captures params hc => by rw [hmatch] at hc; cases hc⟩
  · rename_i captures hmatch
    split at h
    · exact .inr ⟨true, h, nofun⟩
    · rename_i params' hdecode
      have hpasses : ∀ {P : Params → Prop}, P params' → ∀ captures params,
          layer.match req.path.toList = some captures → decodeParams captures = some params →
            P params := by
        intro P hP captures' params hc hd
        cases hmatch.symm.trans hc
        cases hdecode.symm.trans hd
        exact hP
      split at h
      · rename_i r'
        split at h
        · exact .inr ⟨failed, h, fun _ _ _ _ _ => trivial⟩
        · split at h
          · cases h
          · rename_i hvalid
            split at h
            · rename_i hhandles
              cases h
              exact .inl ⟨rfl, hhandles, hvalid, captures, hmatch, hdecode⟩
            · exact .inr ⟨failed, h, fun _ _ _ _ _ => trivial⟩
      · split at h
        · rename_i hfailed
          exact .inr ⟨failed, h, fun hf => by rw [hfailed] at hf; cases hf⟩
        · split at h
          · cases h
          · rename_i hguard
            exact .inr ⟨failed, h, fun _ => hpasses hguard⟩
      · split at h
        · cases h
        · split at h
          · rename_i hfailed
            exact .inr ⟨failed, h, fun hf => by rw [hfailed] at hf; cases hf⟩
          · split at h
            · cases h
            · rename_i hguard
              exact .inr ⟨failed, h, fun _ => hpasses hguard⟩

/-- The guards before a route that is reached have let the request through. -/
theorem walk_handler {ls : List Layer} {failed : Bool} {r : Route} {params : Params}
    (h : walk cfg findAdminGrant req access ls failed = .handler r params) :
    .route r ∈ ls ∧ r.Serves cfg req params ∧
      ∀ l ∈ ls.takeWhile (· ≠ .route r), l.Passes cfg findAdminGrant req access := by
  induction ls generalizing failed with
  | nil => cases failed <;> cases h
  | cons layer rest ih =>
    rcases walk_cons h with ⟨rfl, hserves⟩ | ⟨failed', hrest, hpasses⟩
    · exact ⟨List.mem_cons_self, hserves, by simp⟩
    · cases failed' with
      | true => exact absurd hrest walk_failed
      | false =>
        obtain ⟨hmem, hserves, hbefore⟩ := ih hrest
        refine ⟨List.mem_cons_of_mem _ hmem, hserves, fun l hl => ?_⟩
        rw [List.takeWhile_cons] at hl
        split at hl
        · rcases List.mem_cons.mp hl with rfl | hl
          · exact hpasses rfl
          · exact hbefore l hl
        · cases hl

end Walk

/-! ## The parameters of the route and of the guards before it -/

theorem decodeParams_of_init {front captures : List (List Char × List Char)} {params : Params}
    (hinit : front <+: captures) (h : decodeParams captures = some params) :
    ∃ params', decodeParams front = some params' ∧ params' <+: params := by
  induction front generalizing captures params with
  | nil => exact ⟨[], rfl, List.nil_prefix⟩
  | cons capture front ih =>
    obtain ⟨rest, rfl⟩ := hinit
    simp only [List.cons_append, decodeParams, Option.bind_eq_bind, Option.bind_eq_some_iff,
      Option.pure_def, Option.some.injEq] at h
    obtain ⟨param, hparam, params, hparams, rfl⟩ := h
    obtain ⟨params', hfront, hparams'⟩ := ih (List.prefix_append _ _) hparams
    exact ⟨param :: params', by simp [decodeParams, hparam, hfront],
      List.cons_prefix_cons.mpr ⟨rfl, hparams'⟩⟩

theorem lookup_of_init {params' params : Params} (h : params' <+: params) {name value : String}
    (hvalue : params'.lookup name = some value) : params.lookup name = some value := by
  obtain ⟨rest, rfl⟩ := h
  rw [List.lookup_append, hvalue, Option.some_or]

/-- A parameter of the path is one of the pattern. -/
theorem param_mem_of_lookup {ps : List Part} {ss : List (List Char)} {params : Params}
    (h : decodeParams (captures ps ss) = some params) {name value : String}
    (hvalue : params.lookup name = some value) : .param name.toList ∈ ps := by
  induction ps generalizing ss params with
  | nil =>
    cases h
    cases hvalue
  | cons p ps ih =>
    cases p with
    | literal text =>
      cases ss with
      | nil =>
        cases h
        cases hvalue
      | cons s ss => exact List.mem_cons_of_mem _ (ih h hvalue)
    | param name' =>
      cases ss with
      | nil =>
        cases h
        cases hvalue
      | cons s ss =>
        simp only [captures, decodeParams, Option.bind_eq_bind, Option.bind_eq_some_iff,
          Option.pure_def, Option.some.injEq] at h
        obtain ⟨param, hparam, params, hparams, rfl⟩ := h
        simp only [decodeParam, Option.map_eq_some_iff] at hparam
        obtain ⟨value', -, rfl⟩ := hparam
        rw [List.lookup_cons] at hvalue
        split at hvalue
        · rename_i hname
          rw [beq_iff_eq] at hname
          rw [hname, String.toList_ofList]
          exact List.mem_cons_self
        · exact List.mem_cons_of_mem _ (ih hparams hvalue)

/-- The beginning of a route's pattern matches the same path, with the same parameters. -/
theorem Route.Serves.guardMatch {cfg : Settings} {req : Request} {r : Route} {params : Params}
    (h : r.Serves cfg req params) {ps : List Part} (hps : (pattern r.path).take ps.length = ps) :
    ∃ captures params', expressPrefix ps req.path.toList = some captures ∧
      decodeParams captures = some params' ∧ params' <+: params := by
  obtain ⟨captures, hmatch, hdecode⟩ := h.matched
  have hlength : ps.length ≤ (pattern r.path).length := by
    rw [← hps, List.length_take]
    omega
  obtain ⟨hfront, hinit⟩ := prefix_of_expressMatch hmatch hlength
  rw [hps] at hfront hinit
  obtain ⟨params', hparams', hle⟩ := decodeParams_of_init hinit hdecode
  exact ⟨_, params', if_pos hfront, hparams', hle⟩

/-- The patterns of the two guards. -/
theorem guard_patterns :
    pattern "/v1/realms/:realm" =
      [.literal [], .literal "v1".toList, .literal "realms".toList, .param "realm".toList] ∧
    pattern "/v1/realms/:realm/users/:id" =
      pattern "/v1/realms/:realm" ++ [.literal "users".toList, .param "id".toList] := by
  decide +kernel

theorem expressPrefix_eq_some {ps : List Part} {path : List Char}
    {captures : List (List Char × List Char)} (h : expressPrefix ps path = some captures) :
    matchParts asciiLower ps ((segments path).take ps.length) = true ∧
      captures = Http.captures ps ((segments path).take ps.length) := by
  simp only [expressPrefix] at h
  split at h
  · rename_i hmatch
    exact ⟨hmatch, (Option.some.inj h).symm⟩
  · cases h

/-- The realm that the check of a console session finds is the parameter of the route. -/
theorem requestedAdminRealm_of_guard {path : List Char} {captures : List (List Char × List Char)}
    {params : Params} (h : expressPrefix (pattern "/v1/realms/:realm") path = some captures)
    (hparams : decodeParams captures = some params) :
    ∃ realm, params = [("realm", realm)] ∧ requestedAdminRealm path = some realm := by
  obtain ⟨hmatch, rfl⟩ := expressPrefix_eq_some h
  have hfold := matchParts_fold (tests_canonical _ (by simp)) hmatch
  have hlength := length_of_matchParts hmatch
  rw [show (pattern "/v1/realms/:realm").length = 4 by rw [guard_patterns.1]; rfl]
    at hmatch hfold hlength hparams
  simp only [requestedAdminRealm, hfold, if_true]
  generalize hfront : (segments path).take 4 = front at *
  match front, hlength with
  | [_, _, _, s], _ =>
    rw [guard_patterns.1] at hparams
    simp only [captures, decodeParams, decodeParam, Option.bind_eq_bind, Option.bind_eq_some_iff,
      Option.pure_def, Option.some.injEq, Option.map_eq_some_iff] at hparams
    obtain ⟨_, ⟨realm, hrealm, rfl⟩, _, rfl, rfl⟩ := hparams
    refine ⟨realm, by rw [String.ofList_toList], ?_⟩
    show some ((decodeURIComponent s).getD "") = some realm
    rw [hrealm, Option.getD_some]

/-- The guard of a user's routes reads the realm and the user off the path. -/
theorem params_of_target {path : List Char} {captures : List (List Char × List Char)}
    {params : Params} (h : expressPrefix (pattern "/v1/realms/:realm/users/:id") path = some captures)
    (hparams : decodeParams captures = some params) :
    ∃ realm id, params = [("realm", realm), ("id", id)] := by
  obtain ⟨hmatch, rfl⟩ := expressPrefix_eq_some h
  rw [guard_patterns.2, guard_patterns.1] at hmatch hparams
  have hlength := length_of_matchParts hmatch
  generalize (segments path).take _ = front at *
  match front, hlength with
  | [_, _, _, _, _, _], _ =>
    simp only [List.cons_append, List.nil_append, Http.captures, decodeParams, decodeParam,
      Option.bind_eq_bind, Option.bind_eq_some_iff, Option.pure_def, Option.some.injEq,
      Option.map_eq_some_iff] at hparams
    obtain ⟨_, ⟨realm, -, rfl⟩, _, ⟨_, ⟨id, -, rfl⟩, _, rfl, rfl⟩, rfl⟩ := hparams
    exact ⟨realm, id, by rw [String.ofList_toList, String.ofList_toList]⟩

/-! ## The law -/

/-- A console session may enter the handler of the route: the session is one of the realm
that the route names, its grant has the permission of the route's own method and path, a
mutation has passed the four checks, and a mutation of an administrator's account is made
by an administrator of administrators. -/
structure Authorized (cfg : Settings) (findAdminGrant : Grants) (req : Request)
    (session : Session) (r : Route) (params : Params) : Prop where
  realm : ∀ realm, params.lookup "realm" = some realm → session.authentication.realm = realm
  permission : ∃ permission, requiredAdminPermission r.method r.path.toList = some permission ∧
    hasAdminPermission session.authentication.grant permission = true
  mutation : req.method.isSafe = false → req.isJson = true ∧ req.origin = some cfg.publicUrl ∧
    req.csrf = some (cfg.csrfFor session.sessionValue) ∧
    hasRecentAdminAuthentication session.authentication.session req.now = true
  target : req.method.isSafe = false → ∀ realm id, params.lookup "realm" = some realm →
    params.lookup "id" = some id → findAdminGrant realm id ≠ none →
      hasAdminPermission session.authentication.grant "administrators.manage" = true

/-- The path is one of `userReads`. -/
def readsUsers (path : String) : Bool :=
  userReads.any (test · (segments (normalizedPath path.toList)))

section Law

variable {cfg : Settings} {findAdminGrant : Grants} {req : Request} {session : Session}
  {access : Access}

/-- What the check of a console session has found. -/
theorem authorize_session (hbearer : req.bearer = false)
    (h : authorize cfg req (some session) = .ok access) :
    access = .session session ∧
      (∀ realm, requestedAdminRealm req.path.toList = some realm →
        realm = session.authentication.realm) ∧
      (∃ permission, requiredAdminPermission req.method req.path.toList = some permission ∧
        hasAdminPermission session.authentication.grant permission = true) ∧
      (req.method.isSafe = false → req.isJson = true ∧ verifyCsrf cfg req session = true ∧
        hasRecentAdminAuthentication session.authentication.session req.now = true) := by
  simp only [authorize, hbearer] at h
  split at h
  · cases h
  · simp only [Bool.false_eq_true, if_false] at h
    split at h
    · cases h
    · rename_i hrealm
      have hrealm' : ∀ realm, requestedAdminRealm req.path.toList = some realm →
          realm = session.authentication.realm := by
        intro realm hreq
        by_contra hne
        exact hrealm (by simp [hreq, hne])
      split at h
      · cases h
      · rename_i permission hpermission
        split at h
        · cases h
        · rename_i hhas
          have hhas' : hasAdminPermission session.authentication.grant permission = true := by
            simpa using hhas
          split at h
          · rename_i hsafe
            cases h
            exact ⟨rfl, hrealm', ⟨permission, hpermission, hhas'⟩,
              fun hunsafe => by rw [hsafe] at hunsafe; cases hunsafe⟩
          · split at h
            · cases h
            · rename_i hjson
              split at h
              · cases h
              · rename_i hcsrf
                split at h
                · cases h
                · rename_i hrecent
                  cases h
                  exact ⟨rfl, hrealm', ⟨permission, hpermission, hhas'⟩,
                    fun _ => ⟨by simpa using hjson, by simpa using hcsrf, by simpa using hrecent⟩⟩

theorem verifyCsrf_eq_true (h : verifyCsrf cfg req session = true) :
    req.origin = some cfg.publicUrl ∧ req.csrf = some (cfg.csrfFor session.sessionValue) := by
  simp only [verifyCsrf, Bool.and_eq_true, decide_eq_true_eq] at h
  refine ⟨h.1, ?_⟩
  split at h
  · cases h.2
  · rename_i provided hcsrf
    simp only [Bool.and_eq_true, decide_eq_true_eq] at h
    rw [hcsrf, h.2.2]

variable {r : Route} {params : Params}

/-- What a request of a console session has passed when it reaches a handler. -/
theorem serve_handler (hbearer : req.bearer = false)
    (h : serve cfg findAdminGrant req (some session) = .handler r params) :
    authorize cfg req (some session) = .ok (.session session) ∧ r ∈ routes ∧
      r.Serves cfg req params ∧
      ∀ l ∈ layers.takeWhile (· ≠ .route r),
        l.Passes cfg findAdminGrant req (.session session) := by
  simp only [serve] at h
  split at h
  · cases h
  · rename_i access hauthorize
    split at h
    · cases h
    · obtain ⟨rfl, -⟩ := authorize_session hbearer hauthorize
      obtain ⟨hmem, hserves, hbefore⟩ := walk_handler h
      refine ⟨hauthorize, ?_, hserves, hbefore⟩
      simpa [layers, routes] using hmem

/-- The path of the request, as `requiredAdminPermission` reads it, matches the route. -/
theorem Route.Serves.matches (hr : r ∈ routes) (h : r.Serves cfg req params) :
    matchParts foldUnicode (pattern r.path) (Http.segments (normalizedPath req.path.toList)) =
      true := by
  obtain ⟨captures, hmatch, -⟩ := h.matched
  have hparts := (expressMatch_eq_some hmatch).1
  rw [segments_normalizedPath (agrees_of_mem r hr).endsSolid hparts]
  exact matchParts_fold (agrees_of_mem r hr).canonical hparts

theorem requiredAdminPermission_route (hr : r ∈ routes) (method : Method) :
    requiredAdminPermission method r.path.toList = permissionOf method r.segments := by
  rw [requiredAdminPermission, segments_of_pattern (agrees_of_mem r hr).endsSolid, Route.segments]

theorem Route.Serves.param_mem (h : r.Serves cfg req params) {name value : String}
    (hvalue : params.lookup name = some value) : .param name.toList ∈ pattern r.path := by
  obtain ⟨captures, hmatch, hdecode⟩ := h.matched
  rw [(expressMatch_eq_some hmatch).2] at hdecode
  exact param_mem_of_lookup hdecode hvalue

/-- The realm of the route is the one that the check of the session has found. -/
theorem Route.Serves.requestedAdminRealm (hr : r ∈ routes) (h : r.Serves cfg req params)
    {realm : String} (hrealm : params.lookup "realm" = some realm) :
    Api.requestedAdminRealm req.path.toList = some realm := by
  have htake := (agrees_of_mem r hr).realm (h.param_mem hrealm)
  rw [show 4 = (pattern "/v1/realms/:realm").length by rw [guard_patterns.1]; rfl] at htake
  obtain ⟨captures, params', hinit, hdecode, hle⟩ := h.guardMatch htake
  obtain ⟨realm', rfl, hrequested⟩ := requestedAdminRealm_of_guard hinit hdecode
  have hlookup := lookup_of_init hle (List.lookup_cons_self ..)
  rw [hrequested, ← hlookup, hrealm]

/-- The guard of a user's routes has run on the realm and the user of the route. -/
theorem Route.Serves.guardTarget (hr : r ∈ routes) (h : r.Serves cfg req params)
    (hbefore : ∀ l ∈ layers.takeWhile (· ≠ .route r), l.Passes cfg findAdminGrant req access)
    {id : String} (hid : params.lookup "id" = some id) :
    ∃ realm, params.lookup "realm" = some realm ∧
      Api.guardTarget findAdminGrant req.method access [("realm", realm), ("id", id)] = none := by
  obtain ⟨htake, hguard⟩ := (agrees_of_mem r hr).target (h.param_mem hid)
  rw [show 6 = (pattern "/v1/realms/:realm/users/:id").length by
    rw [guard_patterns.2, guard_patterns.1]; rfl] at htake
  obtain ⟨captures, params', hinit, hdecode, hle⟩ := h.guardMatch htake
  obtain ⟨realm, id', rfl⟩ := params_of_target hinit hdecode
  have hid' : params.lookup "id" = some id' := lookup_of_init hle rfl
  cases hid.symm.trans hid'
  exact ⟨realm, lookup_of_init hle rfl, hbefore _ hguard captures _ hinit hdecode⟩

theorem ne_head_of_mem : ∀ r ∈ routes, r.method ≠ .head := by decide

/-- A route serves `HEAD` besides its own method, if that is `GET`. -/
theorem Route.Serves.head_of_ne (hserves : r.Serves cfg req params)
    (hne : r.method ≠ req.method) :
    req.method = .head ∧ r.method = .get := by
  have hhandles := hserves.handles
  simp only [Route.handles, Bool.or_eq_true, Bool.and_eq_true, decide_eq_true_eq] at hhandles
  exact hhandles.resolve_left hne

theorem readsUsers_route (hr : r ∈ routes) (hserves : r.Serves cfg req params) :
    readsUsers req.path = userReads.any (test · r.segments) := by
  have hsub : ∀ text ∈ userReads, text ∈ tests := by decide
  rw [Bool.eq_iff_iff, readsUsers, List.any_eq_true, List.any_eq_true]
  constructor
  · rintro ⟨text, htext, h⟩
    exact ⟨text, htext, (test_route hr (hserves.matches hr) (hsub text htext)).symm.trans h⟩
  · rintro ⟨text, htext, h⟩
    exact ⟨text, htext, (test_route hr (hserves.matches hr) (hsub text htext)).trans h⟩

/-- **Authorization.** A request of a console session that reaches a handler is authorized
for it exactly when it is not a `HEAD` request for one of the paths of `userReads` under a
grant that may not read users. -/
theorem console_authorization (hbearer : req.bearer = false)
    (h : serve cfg findAdminGrant req (some session) = .handler r params) :
    Authorized cfg findAdminGrant req session r params ↔
      ¬(req.method = .head ∧ readsUsers req.path = true ∧
        hasAdminPermission session.authentication.grant "users.read" = false) := by
  obtain ⟨hauthorize, hr, hserves, hbefore⟩ := serve_handler hbearer h
  obtain ⟨-, hrealm, ⟨permission, hpermission, hhas⟩, hmutation⟩ :=
    authorize_session hbearer hauthorize
  have hroute : permissionOf req.method r.segments = some permission :=
    permissionOf_route hr (hserves.matches hr) hpermission
  have hreads := readsUsers_route hr hserves
  constructor
  · rintro ⟨-, ⟨permission', hown, hhas'⟩, -, -⟩ ⟨hhead, husers, hnot⟩
    have hget : r.method = .get := (hserves.head_of_ne (by
      rw [hhead]; exact ne_head_of_mem r hr)).2
    have hcase := (agrees_of_mem r hr).head hget
    rw [← hreads, if_pos husers] at hcase
    rw [requiredAdminPermission_route hr, hget, hcase] at hown
    cases hown
    rw [hnot] at hhas'
    cases hhas'
  · intro hcondition
    refine ⟨fun realm hlookup => ?_, ?_, fun hunsafe => ?_, fun hunsafe realm id hlookup hid hgrant => ?_⟩
    · exact (hrealm realm (hserves.requestedAdminRealm hr hlookup)).symm
    · rw [requiredAdminPermission_route hr]
      by_cases hmethod : r.method = req.method
      · exact ⟨permission, by rw [hmethod, hroute], hhas⟩
      · obtain ⟨hhead, hget⟩ := hserves.head_of_ne hmethod
        have hcase := (agrees_of_mem r hr).head hget
        rw [← hreads] at hcase
        rw [hget]
        split at hcase
        · rename_i husers
          refine ⟨"users.read", hcase, ?_⟩
          by_contra hnot
          exact hcondition ⟨hhead, husers, by simpa using hnot⟩
        · rw [← hcase, ← hhead]
          exact ⟨permission, hroute, hhas⟩
    · obtain ⟨hjson, hcsrf, hrecent⟩ := hmutation hunsafe
      obtain ⟨horigin, htoken⟩ := verifyCsrf_eq_true hcsrf
      exact ⟨hjson, horigin, htoken, hrecent⟩
    · obtain ⟨realm', hlookup', hguard⟩ := hserves.guardTarget hr hbefore hid
      cases hlookup.symm.trans hlookup'
      by_contra hnot
      have hfirst : ([("realm", realm), ("id", id)] : Params).lookup "realm" = some realm := rfl
      have hsecond : ([("realm", realm), ("id", id)] : Params).lookup "id" = some id := rfl
      simp [guardTarget, hunsafe, hfirst, hsecond, Access.has, hnot, hgrant] at hguard

end Law

/-! ## Two requests -/

def someSettings : Settings where
  realms := ["master"]
  publicUrl := "https://auth.example.org"
  csrfFor := id
  isUserId := fun _ => true

/-- A session whose grant may write users and nothing else. -/
def writer : Session where
  sessionValue := "secret"
  authentication :=
    { realm := "master"
      session := ⟨"digest", "master", "alice", 2, 0, 0, 0, 1800000, 28800000⟩
      sessionDigest := "digest"
      user := { realm := "master", id := "alice", username := "alice", email := "alice@example.org" }
      grant := ⟨["users.write"], true, 2⟩ }

def writerRequest (method : Method) (path : String) : Request where
  method := method
  path := path
  limited := false
  bearer := false
  isJson := true
  origin := some "https://auth.example.org"
  csrf := some "secret"
  now := 60000
  unreadable := none

set_option maxRecDepth 8000 in
/-- The writer of users may update one, whatever the spelling of the path. -/
theorem console_authorization_patch :
    Authorized someSettings (fun _ _ => none)
      (writerRequest .patch "/V1/realms/%6Daster/users/bob/") writer
      ⟨.patch, "/v1/realms/:realm/users/:id"⟩ [("realm", "master"), ("id", "bob")] :=
  (console_authorization rfl (by decide +kernel)).mpr (by decide)

set_option maxRecDepth 8000 in
/-- The writer of users may not read them, and reaches the handler that lists them. -/
theorem head_reaches_listUsers :
    serve someSettings (fun _ _ => none) (writerRequest .head "/v1/realms/master/users")
        (some writer) = .handler ⟨.get, "/v1/realms/:realm/users"⟩ [("realm", "master")] ∧
      ¬ Authorized someSettings (fun _ _ => none)
        (writerRequest .head "/v1/realms/master/users") writer
        ⟨.get, "/v1/realms/:realm/users"⟩ [("realm", "master")] := by
  refine ⟨by decide +kernel, fun h => ?_⟩
  obtain ⟨permission, hpermission, hhas⟩ := h.permission
  have hread : requiredAdminPermission .get "/v1/realms/:realm/users".toList =
      some "users.read" := by decide +kernel
  cases hread.symm.trans hpermission
  exact absurd hhas (by decide)

end AuthMe.Admin.Api

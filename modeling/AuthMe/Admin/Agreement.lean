import AuthMe.Admin.Routes

/-!
# The permission of a path is that of its route

The permission is read off the requested path by `permissionOf`, and the handler is
chosen by Express. `permissionOf_route` says that the two agree: the permission of a path
that a route matches is the permission of the route's own text.

What depends on the texts of the routes is in the one check `agrees`.
-/

namespace AuthMe.Admin.Api

open Http Store

/-! ## The tables -/

/-- The text of a route's path, as segments. -/
def Route.segments (r : Route) : List (List Char) := (pattern r.path).map Part.text

/-- The tests of `permissionOf`. -/
def tests : List String :=
  ["/metrics", "/v1/realms", "/v1/realms/:realm/configuration", "/v1/realms/:realm/audit",
    "/v1/realms/:realm/client-registration-tokens",
    "/v1/realms/:realm/users/:id/federated-identities",
    "/v1/realms/:realm/users/:id/mfa/totp", "/v1/realms/:realm/users/:id/mfa/totp/confirm",
    "/v1/realms/:realm/users/:id/password", "/v1/realms/:realm/users/:id/unlock",
    "/v1/realms/:realm/users/:id/sessions/revoke", "/v1/realms/:realm/users/:id",
    "/v1/realms/:realm/users"]

/-- The paths on which the permission depends on whether the method is `GET`. -/
def userReads : List String :=
  ["/v1/realms/:realm/users", "/v1/realms/:realm/users/:id",
    "/v1/realms/:realm/users/:id/federated-identities"]

/-- What the tables say of a route. -/
structure Route.Agrees (r : Route) : Prop where
  /-- The pattern is written in the letters of the tests, and does not end with a slash. -/
  canonical : canonical foldUnicode (pattern r.path) = true
  endsSolid : endsSolid (pattern r.path) = true
  /-- A test says the same of all paths of the route. -/
  tests : ∀ text ∈ tests, decides (pattern text) (pattern r.path) = true
  passkeys : decides (pattern "/v1/realms/:realm/users/:id/passkeys") ((pattern r.path).take 7) =
    true
  plain : ((r.segments.drop 7).all fun s => s.all fun c => !isLineTerminator c) = true
  /-- Where the test of the passkeys holds, no other one does. -/
  alone : testPasskeys r.segments = true → ∀ text ∈ Api.tests, test text r.segments = false
  /-- `HEAD` has the permission of `GET`, except on the paths of `userReads`. -/
  head : r.method = .get →
    if userReads.any (test · r.segments) then permissionOf .get r.segments = some "users.read"
    else permissionOf .head r.segments = permissionOf .get r.segments
  /-- The guards read their parameters where the route has them. -/
  realm : .param "realm".toList ∈ pattern r.path →
    (pattern r.path).take 4 = pattern "/v1/realms/:realm"
  target : .param "id".toList ∈ pattern r.path →
    (pattern r.path).take 6 = pattern "/v1/realms/:realm/users/:id" ∧
      .targetGuard ∈ layers.takeWhile (· ≠ .route r)

instance (r : Route) : Decidable r.Agrees :=
  decidable_of_iff
    (_ ∧ _ ∧ _ ∧ _ ∧ _ ∧ _ ∧ _ ∧ _ ∧ _)
    ⟨fun ⟨h1, h2, h3, h4, h5, h6, h7, h8, h9⟩ => ⟨h1, h2, h3, h4, h5, h6, h7, h8, h9⟩,
      fun ⟨h1, h2, h3, h4, h5, h6, h7, h8, h9⟩ => ⟨h1, h2, h3, h4, h5, h6, h7, h8, h9⟩⟩

set_option maxRecDepth 8000 in
theorem agrees_of_mem : ∀ r ∈ routes, r.Agrees := by decide +kernel

set_option maxRecDepth 8000 in
theorem tests_canonical :
    ∀ text ∈ "/v1/realms/:realm/users/:id/passkeys" :: "/v1/realms/:realm" :: tests,
      canonical foldUnicode (pattern text) = true := by decide +kernel

/-! ## The permission of a path is that of its route -/

section Agreement

variable {r : Route} {ss tt : List (List Char)}

/-- `permissionOf` depends on the path through its tests alone. -/
theorem permissionOf_congr (htest : ∀ text ∈ tests, test text ss = test text tt)
    (hpasskeys : testPasskeys ss = testPasskeys tt) (method : Method) :
    permissionOf method ss = permissionOf method tt := by
  simp only [tests, List.forall_mem_cons] at htest
  simp only [permissionOf, htest, hpasskeys]

theorem permissionOf_eq_none (htest : ∀ text ∈ tests, test text ss = false)
    (hpasskeys : testPasskeys ss = false) (method : Method) : permissionOf method ss = none := by
  simp only [tests, List.forall_mem_cons] at htest
  simp [permissionOf, htest, hpasskeys]

theorem test_route (hr : r ∈ routes) (h : matchParts foldUnicode (pattern r.path) ss = true)
    {text : String} (htext : text ∈ tests) : test text ss = test text r.segments := by
  have hr := agrees_of_mem r hr
  exact matchParts_text (tests_canonical text (by simp [htext])) hr.canonical (hr.tests text htext) h

/-- A path may have a line terminator where the test of the passkeys allows none. -/
theorem testPasskeys_route (hr : r ∈ routes)
    (h : matchParts foldUnicode (pattern r.path) ss = true) (hss : testPasskeys ss = true) :
    testPasskeys r.segments = true := by
  have hr := agrees_of_mem r hr
  simp only [testPasskeys, Bool.and_eq_true] at hss ⊢
  refine ⟨?_, hr.plain⟩
  have htake := matchParts_take h 7
  have hcanonical' : canonical foldUnicode ((pattern r.path).take 7) = true := by
    have hcanonical := hr.canonical
    simp only [canonical, List.all_eq_true] at hcanonical ⊢
    exact fun p hp => hcanonical p (List.mem_of_mem_take hp)
  rw [Route.segments, ← List.map_take, test,
    ← matchParts_text (tests_canonical _ List.mem_cons_self) hcanonical' hr.passkeys htake]
  exact hss.1

/-- **Agreement.** A permission that the table gives to a path that a route matches is the
one it gives to the path of the route. -/
theorem permissionOf_route (hr : r ∈ routes)
    (h : matchParts foldUnicode (pattern r.path) ss = true) {method : Method}
    {permission : String} (hpermission : permissionOf method ss = some permission) :
    permissionOf method r.segments = some permission := by
  have htest : ∀ text ∈ tests, test text ss = test text r.segments :=
    fun text htext => test_route hr h htext
  have hpasskeys : testPasskeys ss = testPasskeys r.segments := by
    cases hss : testPasskeys ss with
    | true => exact (testPasskeys_route hr h hss).symm
    | false =>
      cases hroute : testPasskeys r.segments with
      | false => rfl
      | true =>
        have hnone : permissionOf method ss = none :=
          permissionOf_eq_none
            (fun text ht => (htest text ht).trans ((agrees_of_mem r hr).alone hroute text ht)) hss method
        cases hnone.symm.trans hpermission
  rw [← permissionOf_congr htest hpasskeys, hpermission]

end Agreement

end AuthMe.Admin.Api

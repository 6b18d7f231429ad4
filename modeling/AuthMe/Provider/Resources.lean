import AuthMe.Store.User
import AuthMe.Scim.Value

/-!
# Claims for resource servers

`normalizedAudience`, `findConfiguredResourceServer`, `resourceTokenClaims` and the callback
`extraTokenClaims` of `src/src/provider.js`: what an access token says about the account to the
resource server that it was issued for.

The URL parser is a parameter, and so is the type of a single audience: `token.aud` is whatever the
provider has put there. The main result compares two runs with two stores that know the account
differently. Whatever is not released for the token can differ, and the claims do not.
-/

namespace AuthMe.Provider

/-! ## The code -/

structure ResourceServer where
  audience : String
  roleClientIds : List String := []
  includeRealmRoles : Bool := false
  includeGroups : Bool := false
  deriving DecidableEq

/-- A user as the stores return one. The value at a client id is an array of role names, or
something else (`none`); the column is only known to be an object. -/
structure User extends Store.User where
  clientRoles : Option (OrderedMap String (Option (List String))) := none

/-- `user.clientRoles?.[clientId]`. Nothing that an object inherits is an array. -/
def User.clientRolesOf (u : User) (clientId : String) : Option (Option (List String)) :=
  u.clientRoles.bind (·.get? clientId)

/-- `token.aud`. -/
inductive Aud (α : Type)
  | undefined
  | single (audience : α)
  | array (audiences : List α)

/-- `Array.isArray(token.aud) ? token.aud : [token.aud]`, where there is an audience. -/
def Aud.toList? {α : Type} : Aud α → Option (List α)
  | .undefined => none
  | .single a => some [a]
  | .array as => some as

/-- `token.scopes`: a `Set`, or `String(scopes ?? '')` of anything else. -/
inductive Scopes
  | set (granted : List String)
  | text (s : String)

/-- The scopes as a `Set`. -/
def Scopes.granted : Scopes → List String
  | .set granted => granted
  | .text s => ((s.toList.splitOn ' ').map String.ofList).filter (· ≠ "")

structure Token (α : Type) where
  accountId : Option String
  aud : Aud α
  scopes : Scopes

/-- The claims of a resource token, each of them absent or there. -/
structure Claims where
  realmAccess : Option (List String) := none
  resourceAccess : Option (OrderedMap String (List String)) := none
  groups : Option (List String) := none

/-- `Object.keys(claims).length ? claims : undefined`. -/
def Claims.orUndefined (claims : Claims) : Option Claims :=
  if claims.realmAccess.isSome || claims.resourceAccess.isSome || claims.groups.isSome then
    some claims
  else none

variable {α : Type}

/-- `new URL(value).href`, or `undefined`. -/
def normalizedAudience (href : α → Option String) (value : α) : Option String := href value

def findConfiguredResourceServer (href : α → Option String) (resourceServers : List ResourceServer)
    (audience : α) : Option ResourceServer :=
  match normalizedAudience href audience with
  | none => none
  | some normalized =>
    if normalized = "" then none else resourceServers.find? (·.audience = normalized)

/-- One round of the loop over `roleClientIds`. To assign an object to `__proto__` makes no key. -/
def addClientRoles (user : User) (resourceAccess : OrderedMap String (List String))
    (clientId : String) : OrderedMap String (List String) :=
  match user.clientRolesOf clientId with
  | some (some roles) =>
    if roles ≠ [] then Scim.assign clientId roles resourceAccess else resourceAccess
  | _ => resourceAccess

def resourceAccess (resourceServer : ResourceServer) (user : User) :
    OrderedMap String (List String) :=
  resourceServer.roleClientIds.foldl (addClientRoles user) OrderedMap.empty

def resourceTokenClaims (resourceServer : Option ResourceServer) (user : Option User)
    (scopes : Scopes) : Option Claims :=
  match resourceServer, user with
  | some resourceServer, some user =>
    Claims.orUndefined
      { realmAccess :=
          if "roles" ∈ scopes.granted ∧ resourceServer.includeRealmRoles then some user.roles
          else none
        resourceAccess :=
          if "roles" ∈ scopes.granted ∧ (resourceAccess resourceServer user).entries ≠ [] then
            some (resourceAccess resourceServer user)
          else none
        groups :=
          if "groups" ∈ scopes.granted ∧ resourceServer.includeGroups then some user.groups
          else none }
  | _, _ => none

/-- The callback of a realm, over the state of the store that it reads. -/
def extraTokenClaims (href : α → Option String) (resourceServers : List ResourceServer)
    (findUserById : String → Option User) (token : Token α) : Option Claims :=
  match token.accountId, token.aud.toList? with
  | some accountId, some audiences =>
    if accountId = "" then none
    else
      match audiences with
      | [audience] =>
        match findConfiguredResourceServer href resourceServers audience with
        | none => none
        | some resourceServer =>
          match findUserById accountId with
          | none => none
          | some user =>
            if user.enabled then
              resourceTokenClaims (some resourceServer) (some user) token.scopes
            else none
      | _ => none
  | _, _ => none

/-! ## What is released for a token -/

/-- The one audience of the token denotes this resource server: the first with its URL. -/
def Denotes (href : α → Option String) (resourceServers : List ResourceServer) (token : Token α)
    (resourceServer : ResourceServer) : Prop :=
  ∃ audience url, token.aud.toList? = some [audience] ∧ href audience = some url ∧ url ≠ "" ∧
    ∃ before after, resourceServers = before ++ resourceServer :: after ∧
      resourceServer.audience = url ∧ ∀ other ∈ before, other.audience ≠ url

/-- Two users agree on the parts that are released for the token. -/
structure AgreeOnReleased (href : α → Option String) (resourceServers : List ResourceServer)
    (token : Token α) (u v : User) : Prop where
  realmRoles : "roles" ∈ token.scopes.granted → ∀ server, Denotes href resourceServers token server →
    server.includeRealmRoles → u.roles = v.roles
  clientRoles : "roles" ∈ token.scopes.granted → ∀ server, Denotes href resourceServers token server →
    ∀ clientId ∈ server.roleClientIds, u.clientRolesOf clientId = v.clientRolesOf clientId
  groups : "groups" ∈ token.scopes.granted → ∀ server, Denotes href resourceServers token server →
    server.includeGroups → u.groups = v.groups

/-- The store answers with this user when it is asked for the account of the token. -/
def Finds (findUserById : String → Option User) (token : Token α) (u : User) : Prop :=
  ∃ accountId, token.accountId = some accountId ∧ findUserById accountId = some u

section

variable {href : α → Option String} {resourceServers : List ResourceServer}
  {findUserById : String → Option User} {token : Token α}

theorem findConfiguredResourceServer_eq_some {audience : α} {server : ResourceServer} :
    findConfiguredResourceServer href resourceServers audience = some server ↔
      ∃ url, href audience = some url ∧ url ≠ "" ∧
        ∃ before after, resourceServers = before ++ server :: after ∧
          server.audience = url ∧ ∀ other ∈ before, other.audience ≠ url := by
  unfold findConfiguredResourceServer normalizedAudience
  cases hurl : href audience with
  | none => simp
  | some url =>
    by_cases hempty : url = ""
    · simp only [hempty, if_true]
      constructor
      · intro hnone
        cases hnone
      · intro ⟨url', hurl', hne, _⟩
        exact absurd (Option.some.inj hurl').symm hne
    · simp only [hempty, if_false, List.find?_eq_some_iff_append, decide_eq_true_eq,
        Bool.not_eq_true', decide_eq_false_iff_not, Option.some.injEq]
      constructor
      · intro ⟨heq, before, after, hlist, hbefore⟩
        exact ⟨url, rfl, hempty, before, after, hlist, heq, hbefore⟩
      · intro ⟨url', hurl', _, before, after, hlist, heq, hbefore⟩
        subst hurl'
        exact ⟨heq, before, after, hlist, hbefore⟩

theorem denotes_iff {audience : α} (haud : token.aud.toList? = some [audience])
    {server : ResourceServer} :
    Denotes href resourceServers token server ↔
      findConfiguredResourceServer href resourceServers audience = some server := by
  rw [findConfiguredResourceServer_eq_some]
  constructor
  · intro ⟨audience', url, haud', hrest⟩
    rw [haud, Option.some.injEq, List.cons.injEq] at haud'
    rw [haud'.1]
    exact ⟨url, hrest⟩
  · intro ⟨url, hrest⟩
    exact ⟨audience, url, haud, hrest⟩

/-- No two servers are denoted by one token. -/
theorem Denotes.unique {server other : ResourceServer}
    (h : Denotes href resourceServers token server)
    (h' : Denotes href resourceServers token other) : server = other := by
  obtain ⟨audience, -, haud, -⟩ := id h
  have hserver := (denotes_iff haud).mp h
  have hother := (denotes_iff haud).mp h'
  exact Option.some.inj (hserver.symm.trans hother)

/-- The claims of a token that denotes a server, for an enabled user. -/
theorem extraTokenClaims_of_denotes {server : ResourceServer} {u : User}
    (hserver : Denotes href resourceServers token server) (hu : Finds findUserById token u)
    (henabled : u.enabled = true) :
    extraTokenClaims href resourceServers findUserById token =
      if token.accountId = some "" then none
      else resourceTokenClaims (some server) (some u) token.scopes := by
  obtain ⟨audience, -, haud, -⟩ := id hserver
  obtain ⟨accountId, hid, hfound⟩ := hu
  have hfind := (denotes_iff haud).mp hserver
  unfold extraTokenClaims
  simp [hid, haud, hfind, hfound, henabled]

theorem extraTokenClaims_eq_none_of_not_denotes
    (h : ∀ server, ¬ Denotes href resourceServers token server) :
    extraTokenClaims href resourceServers findUserById token = none := by
  unfold extraTokenClaims
  split
  · rename_i accountId audiences hid haud
    split
    · rfl
    · split
      · rename_i audience
        have hfind : findConfiguredResourceServer href resourceServers audience = none := by
          cases hserver : findConfiguredResourceServer href resourceServers audience with
          | none => rfl
          | some server => exact absurd ((denotes_iff haud).mpr hserver) (h server)
        rw [hfind]
      · rfl
  · rfl

theorem extraTokenClaims_eq_none_of_disabled {u : User} (hu : Finds findUserById token u)
    (hdisabled : u.enabled = false) :
    extraTokenClaims href resourceServers findUserById token = none := by
  obtain ⟨accountId, hid, hfound⟩ := hu
  unfold extraTokenClaims
  rw [hid]
  cases token.aud.toList? with
  | none => rfl
  | some audiences =>
    dsimp only
    split
    · rfl
    · split
      · split
        · rfl
        · simp [hfound, hdisabled]
      · rfl

end

/-! ## The roles of the configured clients -/

theorem addClientRoles_congr {u v : User} {clientId : String}
    (h : u.clientRolesOf clientId = v.clientRolesOf clientId)
    (access : OrderedMap String (List String)) :
    addClientRoles u access clientId = addClientRoles v access clientId := by
  unfold addClientRoles
  rw [h]

/-- The loop reads the roles of the clients that it is for and no others. -/
theorem resourceAccess_congr {server : ResourceServer} {u v : User}
    (h : ∀ clientId ∈ server.roleClientIds,
      u.clientRolesOf clientId = v.clientRolesOf clientId) :
    resourceAccess server u = resourceAccess server v := by
  unfold resourceAccess
  apply List.foldl_ext
  intro access clientId hmem
  exact addClientRoles_congr (h clientId hmem) access

/-- Claims are the same for users that agree on what the server and the scopes release. -/
theorem resourceTokenClaims_congr {server : ResourceServer} {scopes : Scopes} {u v : User}
    (hrealm : "roles" ∈ scopes.granted → server.includeRealmRoles → u.roles = v.roles)
    (hclient : "roles" ∈ scopes.granted → ∀ clientId ∈ server.roleClientIds,
      u.clientRolesOf clientId = v.clientRolesOf clientId)
    (hgroups : "groups" ∈ scopes.granted → server.includeGroups → u.groups = v.groups) :
    resourceTokenClaims (some server) (some u) scopes =
      resourceTokenClaims (some server) (some v) scopes := by
  have realm : (if "roles" ∈ scopes.granted ∧ server.includeRealmRoles then some u.roles else none) =
      if "roles" ∈ scopes.granted ∧ server.includeRealmRoles then some v.roles else none := by
    split
    · rename_i hreleased
      rw [hrealm hreleased.1 hreleased.2]
    · rfl
  have groups : (if "groups" ∈ scopes.granted ∧ server.includeGroups then some u.groups else none) =
      if "groups" ∈ scopes.granted ∧ server.includeGroups then some v.groups else none := by
    split
    · rename_i hreleased
      rw [hgroups hreleased.1 hreleased.2]
    · rfl
  unfold resourceTokenClaims
  simp only [realm, groups]
  by_cases hroles : "roles" ∈ scopes.granted
  · rw [resourceAccess_congr (hclient hroles)]
  · simp only [hroles, false_and, if_false]

/-- The roles of one client that an object of claims can hold. -/
def User.releasedRoles (u : User) (clientId : String) : Option (List String) :=
  match u.clientRolesOf clientId with
  | some (some roles) => if roles ≠ [] ∧ clientId ≠ "__proto__" then some roles else none
  | _ => none

theorem get?_addClientRoles (u : User) (access : OrderedMap String (List String))
    (clientId key : String) :
    (addClientRoles u access clientId).get? key =
      if key = clientId then (u.releasedRoles clientId).or (access.get? key)
      else access.get? key := by
  unfold addClientRoles User.releasedRoles
  split
  · rename_i roles hroles
    by_cases hempty : roles = []
    · simp [hempty]
    · by_cases hproto : clientId = "__proto__"
      · simp [hempty, hproto, Scim.assign]
      · simp [hempty, hproto, Scim.assign, OrderedMap.get?_set]
  · simp

/-- `resource_access` has the clients that are configured and have roles, with these roles. -/
theorem get?_resourceAccess (server : ResourceServer) (u : User) (key : String) :
    (resourceAccess server u).get? key =
      if key ∈ server.roleClientIds then u.releasedRoles key else none := by
  have run : ∀ (clientIds : List String) (access : OrderedMap String (List String)),
      (clientIds.foldl (addClientRoles u) access).get? key =
        if key ∈ clientIds then (u.releasedRoles key).or (access.get? key)
        else access.get? key := by
    intro clientIds
    induction clientIds with
    | nil => intro access; simp
    | cons clientId rest ih =>
      intro access
      rw [List.foldl_cons, ih, get?_addClientRoles]
      by_cases hkey : key = clientId
      · subst hkey
        by_cases hrest : key ∈ rest
        · simp only [hrest, if_true, List.mem_cons, or_true]
          cases u.releasedRoles key <;> rfl
        · simp [hrest]
      · simp [hkey]
  unfold resourceAccess
  rw [run]
  simp [OrderedMap.empty, OrderedMap.get?, OrderedMap.lookup]

theorem orUndefined_bind {β : Type} (claims : Claims) {field : Claims → Option β}
    (hfield : field {} = none) : claims.orUndefined.bind field = field claims := by
  unfold Claims.orUndefined
  split
  · rfl
  · rename_i hempty
    have heq : claims = {} := by
      cases claims
      simp_all
    rw [heq, hfield]
    rfl

theorem realmAccess_resourceTokenClaims {server : ResourceServer} {u : User} {scopes : Scopes} :
    (resourceTokenClaims (some server) (some u) scopes).bind Claims.realmAccess =
      if "roles" ∈ scopes.granted ∧ server.includeRealmRoles then some u.roles else none := by
  unfold resourceTokenClaims
  exact orUndefined_bind _ rfl

theorem groups_resourceTokenClaims {server : ResourceServer} {u : User} {scopes : Scopes} :
    (resourceTokenClaims (some server) (some u) scopes).bind Claims.groups =
      if "groups" ∈ scopes.granted ∧ server.includeGroups then some u.groups else none := by
  unfold resourceTokenClaims
  exact orUndefined_bind _ rfl

theorem resourceAccess_resourceTokenClaims {server : ResourceServer} {u : User} {scopes : Scopes}
    (h : "roles" ∈ scopes.granted) (key : String) :
    ((resourceTokenClaims (some server) (some u) scopes).bind Claims.resourceAccess).bind
        (·.get? key) = (resourceAccess server u).get? key := by
  unfold resourceTokenClaims
  dsimp only
  rw [orUndefined_bind _ rfl]
  by_cases hempty : (resourceAccess server u).entries = []
  · have hget : (resourceAccess server u).get? key = none := by
      rw [OrderedMap.get?, hempty]
      rfl
    simp [hempty, hget]
  · simp [h, hempty]

/-- Nothing else is released: users with the same claims agree on all of it, but for roles that
are no array or an empty one. -/
theorem released_of_same_claims {server : ResourceServer} {scopes : Scopes} {u v : User}
    (h : resourceTokenClaims (some server) (some u) scopes =
      resourceTokenClaims (some server) (some v) scopes) :
    ("roles" ∈ scopes.granted → server.includeRealmRoles → u.roles = v.roles) ∧
    ("roles" ∈ scopes.granted → ∀ clientId ∈ server.roleClientIds,
      u.releasedRoles clientId = v.releasedRoles clientId) ∧
    ("groups" ∈ scopes.granted → server.includeGroups → u.groups = v.groups) := by
  refine ⟨?_, ?_, ?_⟩
  · intro hroles hinclude
    have same := congrArg (·.bind Claims.realmAccess) h
    simp only [realmAccess_resourceTokenClaims, hroles, hinclude, true_and, if_true,
      Option.some.injEq] at same
    exact same
  · intro hroles clientId hclient
    have same := congrArg (fun claims => (claims.bind Claims.resourceAccess).bind
      (·.get? clientId)) h
    simp only [resourceAccess_resourceTokenClaims hroles, get?_resourceAccess, hclient,
      if_true] at same
    exact same
  · intro hgroups hinclude
    have same := congrArg (·.bind Claims.groups) h
    simp only [groups_resourceTokenClaims, hgroups, hinclude, true_and, if_true,
      Option.some.injEq] at same
    exact same

/-! ## Two runs -/

/-- Two stores that hold the account as users who are enabled and agree on what is released for the
token give it the same claims. There are none without an audience, with several, with one that
denotes no server, and for a user who is disabled. -/
theorem extraTokenClaims_discloses_only_released (href : α → Option String)
    (resourceServers : List ResourceServer) (findUserById findUserById' : String → Option User)
    (token : Token α) :
    (∀ u v, Finds findUserById token u → Finds findUserById' token v →
      u.enabled = true → v.enabled = true → AgreeOnReleased href resourceServers token u v →
      extraTokenClaims href resourceServers findUserById token =
        extraTokenClaims href resourceServers findUserById' token) ∧
    (token.aud = .undefined →
      extraTokenClaims href resourceServers findUserById token = none) ∧
    (∀ audiences, token.aud = .array audiences → audiences.length ≠ 1 →
      extraTokenClaims href resourceServers findUserById token = none) ∧
    ((∀ server, ¬ Denotes href resourceServers token server) →
      extraTokenClaims href resourceServers findUserById token = none) ∧
    (∀ u, Finds findUserById token u → u.enabled = false →
      extraTokenClaims href resourceServers findUserById token = none) := by
  have none_of_count : (∀ audience, token.aud.toList? ≠ some [audience]) →
      extraTokenClaims href resourceServers findUserById token = none := by
    intro hcount
    apply extraTokenClaims_eq_none_of_not_denotes
    intro server ⟨audience, _, haud, _⟩
    exact hcount audience haud
  refine ⟨?_, ?_, ?_, extraTokenClaims_eq_none_of_not_denotes,
    fun u => extraTokenClaims_eq_none_of_disabled⟩
  · intro u v hu hv henabled henabled' hagree
    by_cases hdenotes : ∃ server, Denotes href resourceServers token server
    · obtain ⟨server, hserver⟩ := hdenotes
      rw [extraTokenClaims_of_denotes hserver hu henabled,
        extraTokenClaims_of_denotes hserver hv henabled']
      have same := resourceTokenClaims_congr
        (fun hroles => hagree.realmRoles hroles server hserver)
        (fun hroles => hagree.clientRoles hroles server hserver)
        (fun hgroups => hagree.groups hgroups server hserver)
      rw [same]
    · have hnone := not_exists.mp hdenotes
      rw [extraTokenClaims_eq_none_of_not_denotes hnone,
        extraTokenClaims_eq_none_of_not_denotes hnone]
  · intro hundefined
    apply none_of_count
    intro audience
    simp [hundefined, Aud.toList?]
  · intro audiences harray hlength
    apply none_of_count
    intro audience haud
    simp only [harray, Aud.toList?, Option.some.injEq] at haud
    simp [haud] at hlength

end AuthMe.Provider

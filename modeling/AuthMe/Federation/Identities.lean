import AuthMe.Federation.KeyedLockProgress
import AuthMe.Scim.JsonArray

/-!
# The locks of federated identities

The keys that `MemoryFederatedIdentityRepository` (`src/src/repositories/federated-identity-repository.js`)
locks. `resolve` holds the key of an identity. `link` first holds the key of a user and a provider, and
goes on to the key of the identity. An array of four strings never is one of five, so no operation
on the second kind of key goes on, and the calls can not wait for each other in a circle.
-/

namespace AuthMe.Federation

open KeyedLock Transition

/-- What `normalize` keeps of an identity, as far as the keys are made of it. -/
structure Identity where
  realm : String
  providerId : String
  issuer : String
  externalSubject : String
  deriving DecidableEq

def key (identity : Identity) : String :=
  Scim.stringifyArray
    [identity.realm, identity.providerId, identity.issuer, identity.externalSubject]

def userProviderKey (identity : Identity) (userId : String) : String :=
  Scim.stringifyArray
    ["user-provider", identity.realm, userId, identity.providerId, identity.issuer]

/-- A call of the repository that takes a lock, or of `#locked` itself. -/
inductive Request
  | locked (lockKey : String)
  | resolve (identity : Identity)
  | link (identity : Identity) (userId : String)

/-- What it asks for first, and what its operation asks for. -/
def Request.event : Request → Event String
  | locked lockKey => .ask lockKey none
  | resolve identity => .ask (key identity) none
  | link identity userId => .ask (userProviderKey identity userId) (some (key identity))

/-- New calls are calls of the repository. -/
def FromRequests (_ : State String) (e : Event String) : Prop :=
  e.isOwn = false → ∃ request : Request, e = request.event

theorem key_injective : Function.Injective key := by
  intro identity other h
  have htexts := Scim.stringifyArray_injective h
  simp only [List.cons.injEq, and_true] at htexts
  obtain ⟨hrealm, hprovider, hissuer, hsubject⟩ := htexts
  cases identity
  cases other
  simp_all

theorem key_ne_userProviderKey (identity other : Identity) (userId : String) :
    key identity ≠ userProviderKey other userId := by
  intro h
  have htexts := Scim.stringifyArray_injective h
  simp at htexts

/-- The keys on which an operation goes on. -/
def IsUserProviderKey (lockKey : String) : Prop :=
  ∃ identity userId, lockKey = userProviderKey identity userId

theorem apart_of_fromRequests {s : State String} {e : Event String} (h : FromRequests s e) :
    Apart IsUserProviderKey e := by
  cases e with
  | ask lockKey inner =>
    obtain ⟨request, hrequest⟩ := h rfl
    cases request with
    | locked k =>
      cases hrequest
      trivial
    | resolve identity =>
      cases hrequest
      trivial
    | link identity userId =>
      cases hrequest
      refine ⟨⟨identity, userId, rfl⟩, ?_⟩
      intro ⟨other, otherId, heq⟩
      exact key_ne_userProviderKey identity other otherId heq
  | react | settle | resume | finish => trivial

/-! ## Runs of the repository -/

section

variable {tr : List (Event String × Unit)} {s : State String}

theorem sound_of_run (hrun : Run step FromRequests .initial tr s) : Sound s :=
  sound_initial.run hrun

theorem nested_of_run (hrun : Run step FromRequests .initial tr s) :
    Nested IsUserProviderKey s :=
  hrun.invariant (fun _ _ _ _ hnested hG hstep =>
    hnested.step (apart_of_fromRequests hG) (step_iff.mp hstep)) nested_initial

/-- After an operation has ended, in whatever way, nothing runs on its key, its entry is not in the
table, and the next call on the key is told so and starts. -/
theorem released (h : Sound s) {i : Nat} {c : Call String} {ok : Bool} {s' : State String}
    (hc : s.calls[i]? = some c) (hfinish : step s (.finish i ok) = some (s', ())) :
    (∀ (j : Nat) (d : Call String), s'.calls[j]? = some d → d.key = c.key →
      d.phase.isRunning = false) ∧
    s'.locks.get? c.key ≠ some i ∧
    ∀ (j : Nat) (d : Call String), s'.calls[j]? = some d → d.key = c.key → d.phase = .waiting →
      EarlierDone s' j c.key →
      ∃ tr s₁ s₂ d', Run step (fun _ e => e.isReaction = true) s' tr s₁ ∧
        step s₁ (.resume j) = some (s₂, ()) ∧ s₂.calls[j]? = some d' ∧
        d'.phase.isRunning = true := by
  have hs := step_iff.mp hfinish
  have hafter := h.step hs
  cases hs with
  | @finish _ c' child _ hc' hrunning hend =>
    cases hc.symm.trans hc'
    refine ⟨?_, ?_, ?_⟩
    · intro j d hj hkey
      rw [calls_cleanUp] at hj
      obtain ⟨d₀, hj₀, hd, heq | ⟨-, -, rfl⟩⟩ := of_get_put hc (finish_le hrunning ok) hj
      · subst heq
        by_contra hnot
        have hsame := h.exclusive hc hj₀ hkey.symm (by rw [hrunning]; rfl)
          (Bool.not_eq_false _ ▸ hnot)
        subst hsame
        rw [get_put hc, if_pos rfl] at hj
        cases hc.symm.trans hj₀
        have hphase := congrArg Call.phase (Option.some.inj hj)
        rw [hrunning] at hphase
        cases hphase
      · rfl
    · intro hentry
      exact ((get_locks_cleanUp h.entries hc c.key).mp hentry).2 rfl
    · intro j d hj hkey hwaiting hearlier
      exact hafter.can_start hj hwaiting (hkey ▸ hearlier)

end

/-- Whatever is called, in any order and with any ends: at most one operation on a key runs; an
operation on a key starts when those that asked before are done; an operation that ends, by an
exception or not, releases its key; while a call is not done some step other than a new call is
possible, and without new calls there are no more steps than `work`; and when all calls are done the
table is empty. -/
theorem keyed_lock_law {tr : List (Event String × Unit)} {s : State String}
    (hrun : Run step FromRequests .initial tr s) :
    (∀ (i j : Nat) (c d : Call String), s.calls[i]? = some c → s.calls[j]? = some d →
      c.key = d.key → c.phase.isRunning = true → d.phase.isRunning = true → i = j) ∧
    (∀ (i j : Nat) (c d : Call String), i < j → s.calls[i]? = some c → s.calls[j]? = some d →
      c.key = d.key → d.phase.isWaiting = false → c.phase.isDone = true) ∧
    (∀ (i : Nat) (c : Call String) (ok : Bool) (s' : State String), s.calls[i]? = some c →
      step s (.finish i ok) = some (s', ()) →
      (∀ (j : Nat) (d : Call String), s'.calls[j]? = some d → d.key = c.key →
        d.phase.isRunning = false) ∧
      s'.locks.get? c.key ≠ some i ∧
      ∀ (j : Nat) (d : Call String), s'.calls[j]? = some d → d.key = c.key → d.phase = .waiting →
        EarlierDone s' j c.key →
        ∃ tr s₁ s₂ d', Run step (fun _ e => e.isReaction = true) s' tr s₁ ∧
          step s₁ (.resume j) = some (s₂, ()) ∧ s₂.calls[j]? = some d' ∧
          d'.phase.isRunning = true) ∧
    (∀ (i : Nat) (c : Call String), s.calls[i]? = some c → c.phase.isDone = false →
      ∃ e s', e.isOwn = true ∧ step s e = some (s', ())) ∧
    (∀ (tr' : List (Event String × Unit)) (s' : State String),
      Run step (fun _ e => e.isOwn = true) s tr' s' → tr'.length ≤ s.work) ∧
    ((∀ (i : Nat) (c : Call String), s.calls[i]? = some c → c.phase.isDone = true) →
      s.locks.entries = []) := by
  have hsound := sound_of_run hrun
  have hnested := nested_of_run hrun
  refine ⟨?_, ?_, ?_, ?_, ?_, hsound.table_empty⟩
  · intro i j c d hi hj hkey hc hd
    exact hsound.exclusive hi hj hkey hc hd
  · intro i j c d hij hi hj hkey hstarted
    exact hsound.chain.started_earlier_done hj hstarted i c hij hi hkey
  · intro i c ok s' hc hfinish
    exact released hsound hc hfinish
  · intro i c hc hpending
    exact hsound.progress hnested hc hpending
  · intro tr' s' hown
    have hlength := length_le_work hown
    omega

/-! ## A run in which an operation throws -/

def ada : Identity := ⟨"main", "directory", "https://idp.example", "ada"⟩

/-- While `link` waits for its first key, `resolve` asks for the key of the identity. Its operation
throws, and `link` goes on. -/
def linkRun : List (Event String) :=
  [(Request.link ada "7").event, (Request.resolve ada).event, .resume 0, .resume 1, .finish 1 false,
    .react 1, .settle 1, .resume 2, .finish 2 true, .finish 0 true]

theorem linkRun_ends : ((exec step Always State.initial linkRun).any fun x =>
    x.1.calls.length = 3 && x.1.calls.all (·.phase.isDone)) = true := by
  decide +kernel

theorem keyed_lock_law_of_linkRun : ∃ tr s, Run step FromRequests State.initial tr s ∧
    s.calls.length = 3 ∧ s.locks.entries = [] := by
  have hends := linkRun_ends
  cases hexec : exec step Always State.initial linkRun with
  | none =>
    rw [hexec] at hends
    cases hends
  | some x =>
    obtain ⟨s, os⟩ := x
    rw [hexec] at hends
    simp only [Option.any_some, Bool.and_eq_true, decide_eq_true_eq, List.all_eq_true] at hends
    have hrun : Run step FromRequests State.initial (linkRun.zip os) s := by
      apply (Run.of_exec hexec).strengthen (P := fun x => x.1 ∈ linkRun)
      · intro m e m' o _ _ hmem hnew
        simp only [linkRun, List.mem_cons, List.not_mem_nil, or_false] at hmem
        rcases hmem with rfl | rfl | rfl | rfl | rfl | rfl | rfl | rfl | rfl | rfl
        · exact ⟨_, rfl⟩
        · exact ⟨_, rfl⟩
        all_goals cases hnew
      · intro x hx
        exact (List.of_mem_zip hx).1
    refine ⟨_, s, hrun, hends.1, (keyed_lock_law hrun).2.2.2.2.2 ?_⟩
    intro i c hc
    exact hends.2 c (List.mem_of_getElem? hc)

end AuthMe.Federation

import AuthMe.Adapters.MemoryStep
import AuthMe.Adapters.Shelf
import AuthMe.Transition.Refine

/-!
# The in-memory adapter as a shelf

One call of `src/src/adapters/memory.js` after the other: a call is resumed until it has ended, at one
reading of the clock. The shelf has the objects that the buckets hold. No object is in two places, so
consuming one changes one artifact.
-/

namespace AuthMe.Adapters.Memory

/-! ## Calls from their start to their end -/

/-- The rest of a call while it is suspended. -/
def complete (now : Instant) (call : Nat) : Nat → State → Outcome → Option (State × Outcome)
  | 0, s, o => if o = .suspended then none else some (s, o)
  | n + 1, s, o =>
    if o = .suspended then
      (step s (now, .resume call)).bind fun x => complete now call n x.1 x.2.2
    else some (s, o)

/-- No call has more than four stretches. -/
def runCall (s : State) (now : Instant) (a : Action) : Option (State × Outcome) :=
  (step s (now, a)).bind fun x => complete now x.2.1 3 x.1 x.2.2

def Outcome.answer : Outcome → Answer
  | .saved _ | .done | .mutated => .done
  | .found _ _ p => .found (some p)
  | .absent => .found none
  | .failed _ | .suspended => .refused
  | .claimed success => .claimed success

/-- What the callback of `mutateAccountSecurity` does to the user. -/
def callback (s : State) (now : Instant) (realm accountId : String) :
    Option Bool → Option State
  | none => some s
  | some enabled =>
    (s.users realm accountId).value?.bind fun row =>
      (step s (now, .setUser realm accountId { row with enabled := enabled })).map (·.1)

/-- `mutateAccountSecurity` and `deleteAccount`. -/
def mutation (s : State) (now : Instant) (kind : Kind) (realm accountId : String)
    (enabled : Option Bool) : Option (State × Answer) :=
  (step s (now, .mutation kind realm accountId)).bind fun x =>
    if x.2.2 = .absent then some (x.1, .notFound)
    else
      (callback x.1 now realm accountId enabled).bind fun s' =>
        (complete now x.2.1 3 s' x.2.2).map fun r => (r.1, r.2.answer)

/-- The action of a call that is no mutation. -/
def action : Request → Option Action
  | .upsert key p expiresIn => some (.upsert key p expiresIn)
  | .find realm model c => some (.find realm model c)
  | .consume key => some (.consume key)
  | .claimInitialAccessToken realm id => some (.claimInitialAccessToken realm id)
  | .destroy key => some (.destroy key)
  | .revokeByGrantId realm model g => some (.revokeByGrantId realm model g)
  | .setUser realm u row => some (.setUser realm u.text row)
  | .mutateAccountSecurity _ _ _ | .deleteAccount _ _ => none

def performCall (s : State) (c : Instant × Request) : Option (State × Answer) :=
  match c.2 with
  | .mutateAccountSecurity realm u enabled => mutation s c.1 .mutate realm u.text enabled
  | .deleteAccount realm u => mutation s c.1 .delete realm u.text none
  | r => (action r).bind fun a => (runCall s c.1 a).map fun x => (x.1, x.2.answer)

/-! ## What a state shows -/

def Record.artifact (r : Record) : Artifact := ⟨r.payload, r.expiresAt, r.securityVersion⟩

structure Shows (s : State) (sh : Shelf) : Prop where
  users : ∀ realm (u : Uuid), s.users realm u.text = sh.users realm u
  record : ∀ key, (s.record? key).map (·.2.artifact) = sh.artifacts.get? key
  placed : ∀ {k k' ref}, s.store.get? k = some ref → s.store.get? k' = some ref → k = k'

/-- A well-formed state shows the shelf. -/
structure Tied (s : State) (sh : Shelf) : Prop where
  wf : Wf s
  shows : Shows s sh

/-- The state and the shelf belong together. -/
structure Rep (s : State) (sh : Shelf) : Prop extends Tied s sh where
  shelf : sh.Wf

variable {s s' : State} {sh : Shelf} {now : Instant}

theorem rep_initial {users : String → String → Slot} {users' : String → Uuid → Slot}
    (h : ∀ realm (u : Uuid), users realm u.text = users' realm u) :
    Rep (.initial users) ⟨users', .empty⟩ where
  wf := wf_initial users
  shelf := Shelf.wf_empty users'
  shows := ⟨h, fun _ => rfl, fun h => nomatch h⟩

namespace Shows

/-- Only the users, the objects and the buckets are shown. -/
theorem same (h : Shows s sh) (husers : s'.users = s.users) (hheap : s'.heap = s.heap)
    (hstore : s'.store = s.store) : Shows s' sh where
  users realm u := by rw [husers, h.users]
  record key := by
    rw [← h.record key]
    simp only [State.record?, hheap, hstore]
  placed hk hk' := by
    rw [hstore] at hk hk'
    exact h.placed hk hk'

theorem get? (h : Shows s sh) {key : Key} {a : Artifact} :
    sh.artifacts.get? key = some a ↔ ∃ ref r, s.record? key = some (ref, r) ∧ r.artifact = a := by
  rw [← h.record key, Option.map_eq_some_iff]
  constructor
  · rintro ⟨⟨ref, r⟩, hr, ha⟩
    exact ⟨ref, r, hr, ha⟩
  · rintro ⟨ref, r, hr, ha⟩
    exact ⟨(ref, r), hr, ha⟩

theorem get?_eq_none (h : Shows s sh) {key : Key} :
    sh.artifacts.get? key = none ↔ s.record? key = none := by
  rw [← h.record key, Option.map_eq_none_iff]

theorem live? (h : Shows s sh) (key : Key) :
    (s.live? now key).map (·.2.artifact) = sh.live? now key := by
  unfold State.live? Shelf.live?
  rw [← h.record key]
  cases s.record? key with
  | none => rfl
  | some x =>
    have hlive : x.2.artifact.live now = x.2.live now := rfl
    by_cases hl : x.2.live now = true
    · simp [Option.filter_some, hlive, hl]
    · simp [Option.filter_some, hlive, hl]

theorem version (h : Shows s sh) {realm a : String} (ha : Shelf.canonical (some a) = true) :
    s.securityVersionFor realm a = sh.version realm a := by
  obtain ⟨u, hu⟩ := Option.isSome_iff_exists.mp ha
  obtain rfl := Uuid.ofText?_eq_some.mp hu
  simp only [State.securityVersionFor, h.users, Shelf.version, hu, Option.bind_some]

/-- A new object is put under a key. -/
theorem save (h : Shows s sh) (hwf : Wf s) {ref : Nat} (hfresh : s.heap ref = none) (key : Key)
    (r : Record) (husers : s'.users = s.users)
    (hheap : s'.heap = Function.update s.heap ref (some r))
    (hstore : s'.store = s.store.set key ref) :
    Shows s' (sh.put key r.artifact) := by
  have hother : ∀ {k ref'}, s.store.get? k = some ref' → ref' ≠ ref := by
    rintro k ref' hk rfl
    obtain ⟨r', hr'⟩ := hwf.store hk
    rw [hfresh] at hr'
    cases hr'
  refine ⟨fun realm u => by rw [husers]; exact h.users realm u, ?_, ?_⟩
  · intro k
    simp only [State.record?, hheap, hstore, OrderedMap.get?_set, Shelf.get?_put]
    by_cases hk : k = key
    · simp [hk]
    · simp only [if_neg hk, ← h.record k, State.record?]
      cases hget : s.store.get? k with
      | none => rfl
      | some ref' => simp [Function.update_of_ne (hother hget)]
  · intro k k' ref' hk hk'
    simp only [hstore, OrderedMap.get?_set] at hk hk'
    split at hk <;> split at hk'
    · rename_i h1 h2
      exact h1.trans h2.symm
    · exact absurd (Option.some.inj hk).symm (hother hk')
    · exact absurd (Option.some.inj hk').symm (hother hk)
    · exact h.placed hk hk'

/-- The object of a key is changed in place. -/
theorem change (h : Shows s sh) {key : Key} {ref : Nat} (hget : s.store.get? key = some ref)
    (r : Record) (husers : s'.users = s.users)
    (hheap : s'.heap = Function.update s.heap ref (some r)) (hstore : s'.store = s.store) :
    Shows s' (sh.put key r.artifact) := by
  refine ⟨fun realm u => by rw [husers]; exact h.users realm u, ?_, ?_⟩
  · intro k
    simp only [State.record?, hheap, hstore, Shelf.get?_put]
    by_cases hk : k = key
    · subst hk
      simp [hget]
    · simp only [if_neg hk, ← h.record k, State.record?]
      cases hget' : s.store.get? k with
      | none => rfl
      | some ref' =>
        have hne : ref' ≠ ref := by
          rintro rfl
          exact hk (h.placed hget' hget)
        simp [Function.update_of_ne hne]
  · intro k k' ref' hk hk'
    rw [hstore] at hk hk'
    exact h.placed hk hk'

/-- Objects are taken out of their buckets by what the shelf shows of them. -/
theorem filter (h : Shows s sh) (hwf : Wf s) {p : Key → Nat → Bool} {q : Key → Artifact → Bool}
    (hpq : ∀ {key ref r}, s.heap ref = some r → p key ref = q key r.artifact)
    (husers : s'.users = s.users) (hheap : s'.heap = s.heap)
    (hstore : s'.store = s.store.filter p) :
    Shows s' (sh.keep q) := by
  refine ⟨fun realm u => by rw [husers]; exact h.users realm u, ?_, ?_⟩
  · intro key
    simp only [OrderedMap.get?_filter, Shelf.get?_keep, ← h.record key, State.record?, hheap, hstore]
    cases hget : s.store.get? key with
    | none => rfl
    | some ref =>
      obtain ⟨r, hr⟩ := hwf.store hget
      by_cases hp : p key ref = true
      · simp [Option.filter_some, hp, hr, ← hpq hr]
      · simp [Option.filter_some, hp, hr, ← hpq hr]
  · intro k k' ref hk hk'
    rw [hstore, OrderedMap.get?_filter] at hk hk'
    exact h.placed (Option.filter_eq_some_iff.mp hk).1 (Option.filter_eq_some_iff.mp hk').1

end Shows

namespace Tied

theorem suspend (h : Tied s sh) {call : Nat} (hcall : call ≤ s.tick) (c : Call) :
    Tied (s.suspend call c).tock sh := ⟨h.wf.suspend hcall c, h.shows.same rfl rfl rfl⟩

theorem finish (h : Tied s sh) (call : Nat) : Tied (s.finish call).tock sh :=
  ⟨h.wf.finish call, h.shows.same rfl rfl rfl⟩

theorem fresh (h : Tied s sh) : s.heap s.tick = none := by
  cases hheap : s.heap s.tick with
  | none => rfl
  | some r => exact absurd (h.wf.heap_lt hheap) (Nat.lt_irrefl _)

theorem save (h : Tied s sh) (call : Nat) (key : Key) (r : Record) :
    Tied ((s.finish call).save key r).tock (sh.put key r.artifact) :=
  ⟨h.wf.save call key r, h.shows.save h.wf h.fresh key r rfl rfl rfl⟩

theorem withUser (h : Tied s sh) (realm : String) (u : Uuid) (slot : Slot) :
    Tied (s.withUser realm u.text slot) (sh.withUser realm u slot) := by
  refine ⟨h.wf.withUser _ _ _, ⟨?_, h.shows.record, h.shows.placed⟩⟩
  intro realm' v
  have htext : v.text = u.text ↔ v = u := by
    constructor
    · intro heq
      have := congrArg Uuid.parse heq
      simpa using this
    · rintro rfl
      rfl
  simp only [State.withUser, Shelf.withUser, htext, h.shows.users]

theorem tock (h : Tied s sh) : Tied s.tock sh := ⟨h.wf.tock, h.shows.same rfl rfl rfl⟩

/-- The object of a key that is live, as the shelf shows it. -/
theorem live?_eq_some (h : Tied s sh) {key : Key} {ref : Nat} {r : Record}
    (hlive : s.live? now key = some (ref, r)) : sh.live? now key = some r.artifact := by
  rw [← h.shows.live? key, hlive, Option.map_some]

theorem live?_eq_none (h : Tied s sh) {key : Key} (hlive : s.live? now key = none) :
    sh.live? now key = none := by
  rw [← h.shows.live? key, hlive, Option.map_none]

end Tied

/-! ## How a call ends -/

/-- From this stretch the call ends with the answer, and the shelf after it. -/
def Completes (now : Instant) (call n : Nat) (x : State × Outcome) (a : Answer) (sh : Shelf) :
    Prop :=
  ∃ s' o, complete now call n x.1.tock x.2 = some (s', o) ∧ o.answer = a ∧ Tied s' sh

theorem completes_of_ne {call n : Nat} {o : Outcome} (ho : o ≠ .suspended)
    (htied : Tied s.tock sh) : Completes now call n (s, o) o.answer sh := by
  refine ⟨s.tock, o, ?_, rfl, htied⟩
  cases n <;> simp only [complete, if_neg ho]

theorem complete_suspended {call n : Nat} {c : Call} (hcalls : s.calls call = some c) :
    complete now call (n + 1) s .suspended =
      complete now call n (resume s now call c).1.tock (resume s now call c).2 := by
  simp only [complete, if_true, step, perform, hcalls, Option.map_some, Option.bind_some]

theorem completes_of_suspend {call n : Nat} {c : Call} {a : Answer}
    (h : Completes now call n (resume (s.suspend call c).tock now call c) a sh) :
    Completes now call (n + 1) (s.suspend call c, .suspended) a sh := by
  obtain ⟨s', o, hcomplete, ha, hrep⟩ := h
  refine ⟨s', o, ?_, ha, hrep⟩
  exact (complete_suspended (Function.update_self ..)).trans hcomplete

theorem completes_of_failed (h : Tied s sh) (call n : Nat) (e : AdapterError) :
    Completes now call n (s.finish call, .failed e) .refused sh :=
  completes_of_ne (by simp) (h.finish call)

/-! ## `upsert` -/

section
variable {key : Key} {next : Payload} {expiresIn : Option Int} {parent : Option Nat}
  {version : Option Nat} {call n : Nat}

/-- The parent of the artifact is there, at the version. -/
def ParentLive (s : State) (now : Instant) (realm : String) (next : Payload) (parent : Option Nat)
    (version : Option Nat) : Prop :=
  ∀ g, next.grantId = some g →
    ∃ ref p, s.live? now ⟨realm, "Grant", g⟩ = some (ref, p) ∧ parent = some ref ∧
      p.securityVersion = version

theorem parentLive_of_none {realm : String} {next : Payload} {parent version : Option Nat}
    (h : next.grantId = none) : ParentLive s now realm next parent version := by
  intro g hg
  rw [h] at hg
  cases hg

theorem upsertWrite_refused (h : Tied s sh) (haccount : next.accountId.isSome = true) :
    Completes now call n (upsertWrite s now call key next expiresIn parent none) .refused sh := by
  simp only [upsertWrite, haccount, and_self, if_true]
  exact completes_of_failed h call n _

theorem upsertWrite_saved (h : Tied s sh)
    (hversion : next.accountId.isSome = true → version ≠ none)
    (hparent : ParentLive s now key.realm next parent version) :
    Completes now call n (upsertWrite s now call key next expiresIn parent version) .done
      (sh.put key ⟨next, expiresIn.map (now.ms + ·), version⟩) := by
  have hchanged : ¬(next.grantId.isSome = true ∧
      ((next.grantId.bind fun g => s.live? now ⟨key.realm, "Grant", g⟩).map Prod.fst ≠ parent ∨
        (next.grantId.bind fun g => s.live? now ⟨key.realm, "Grant", g⟩).bind
          (·.2.securityVersion) ≠ version)) := by
    rintro ⟨hsome, hne⟩
    obtain ⟨g, hg⟩ := Option.isSome_iff_exists.mp hsome
    obtain ⟨ref, p, hlive, href, hp⟩ := hparent g hg
    simp [hg, hlive, href, hp] at hne
  simp only [upsertWrite]
  rw [if_neg fun hc => hversion hc.1 hc.2, if_neg hchanged]
  exact completes_of_ne (by simp) (h.save call key ⟨next, version, _, key, call⟩)

/-- Line 49: the version of the own account is read, and there is none. -/
theorem upsertOwn_refused (h : Tied s sh) (hcall : call ≤ s.tick) {a : String}
    (ha : next.accountId = some a) (hcanonical : Shelf.canonical (some a) = true)
    (hnone : sh.version key.realm a = none) :
    Completes now call (n + 1) (upsertOwn s now call key next expiresIn parent) .refused sh := by
  have hversion : s.securityVersionFor key.realm a = none := by
    rw [h.shows.version hcanonical, hnone]
  simp only [upsertOwn, ha, hversion]
  refine completes_of_suspend (upsertWrite_refused (h.suspend hcall _) ?_)
  rw [ha, Option.isSome_some]

/-- Line 49, where there is a version, or no account. -/
theorem upsertOwn_saved (h : Tied s sh) (hcall : call ≤ s.tick)
    (hcanonical : Shelf.canonical next.accountId = true)
    (hversion : next.accountId.bind (sh.version key.realm) = version)
    (hsome : next.accountId.isSome = true → version ≠ none)
    (hparent : ParentLive s now key.realm next parent version) :
    Completes now call (n + 1) (upsertOwn s now call key next expiresIn parent) .done
      (sh.put key ⟨next, expiresIn.map (now.ms + ·), version⟩) := by
  cases ha : next.accountId with
  | none =>
    rw [ha] at hversion
    subst hversion
    simp only [upsertOwn, ha]
    exact upsertWrite_saved h hsome hparent
  | some a =>
    rw [ha] at hcanonical hversion
    change sh.version key.realm a = version at hversion
    simp only [upsertOwn, ha, h.shows.version hcanonical, hversion]
    exact completes_of_suspend (upsertWrite_saved (h.suspend hcall _) hsome hparent)

end

/-- The payload that is saved: a mark that is there stays. -/
theorem mergeConsumed_eq (h : Rep s sh) {key : Key} {p : Payload}
    (hcarries : sh.carries key p = true) :
    mergeConsumed (s.record? key) p =
      { p with consumed := ((sh.artifacts.get? key).bind (·.payload.consumed)).or p.consumed } := by
  unfold Shelf.carries at hcarries
  cases hrecord : s.record? key with
  | none =>
    rw [h.shows.get?_eq_none.mpr hrecord]
    rfl
  | some x =>
    have hget : sh.artifacts.get? key = some x.2.artifact := h.shows.get?.mpr ⟨_, _, hrecord, rfl⟩
    have hsame : x.2.artifact.payload.consumed = x.2.payload.consumed := rfl
    rw [hget, Option.bind_some, hsame] at hcarries ⊢
    rcases Option.eq_none_or_eq_some x.2.payload.consumed with hold | ⟨c, hold⟩
    · simp [mergeConsumed, Payload.isConsumed, hold]
    · have hpos : 0 < c := h.shelf.consumed hget (hsame.trans hold)
      have hc : c ≠ 0 := by omega
      rcases Option.eq_none_or_eq_some p.consumed with hnew | ⟨c', hnew⟩
      · simp [mergeConsumed, Payload.isConsumed, hold, hnew, hc]
      · have heq : c' = c := by simpa [hold, hnew] using hcarries
        subst heq
        simp [mergeConsumed, Payload.isConsumed, hold, hnew, hc]
        rw [← hnew]

/-- What `upsert` puts into the bucket. -/
def State.saved (s : State) (now : Instant) (key : Key) (p : Payload) (expiresIn : Option Int)
    (owner : Option (String × Nat)) : Artifact where
  payload := { mergeConsumed (s.record? key) p with accountId := owner.map (·.1) }
  expiresAt := expiresIn.map (now.ms + ·)
  securityVersion := owner.map (·.2)

/-- `upsert` refuses what has no binding, and saves the rest. -/
theorem upsert_completes (now : Instant) (expiresIn : Option Int) (h : Tied s sh) (hshelf : sh.Wf)
    {key : Key} {p : Payload} (hcanonical : Shelf.canonical p.accountId = true)
    (hreplay : ¬(key.model = "ReplayDetection" ∧ (s.live? now key).isSome = true)) :
    match sh.binding now key.realm p with
    | none => Completes now s.tick 3 (upsert s now key p expiresIn) .refused sh
    | some owner => Completes now s.tick 3 (upsert s now key p expiresIn) .done
        (sh.put key (s.saved now key p expiresIn owner)) := by
  have hmerged : ∃ c, mergeConsumed (s.record? key) p = { p with consumed := c } := by
    unfold mergeConsumed
    split
    · exact ⟨p.consumed, rfl⟩
    · split
      · exact ⟨_, rfl⟩
      · exact ⟨p.consumed, rfl⟩
  obtain ⟨c, hc⟩ := hmerged
  simp only [upsert, if_neg hreplay, hc, State.saved]
  obtain ⟨accountId, grantId, userCode, uid, consumed, rest⟩ := p
  cases grantId with
  | none =>
    cases accountId with
    | none => exact upsertOwn_saved h (Nat.le_refl _) rfl rfl (by simp) (parentLive_of_none rfl)
    | some a =>
      simp only [Shelf.binding]
      cases hversion : sh.version key.realm a with
      | none => exact upsertOwn_refused h (Nat.le_refl _) rfl hcanonical hversion
      | some v =>
        exact upsertOwn_saved h (Nat.le_refl _) hcanonical hversion (by simp) (parentLive_of_none rfl)
  | some g =>
    simp only [Shelf.binding]
    cases hlive : s.live? now ⟨key.realm, "Grant", g⟩ with
    | none =>
      simp only [h.live?_eq_none hlive]
      exact completes_of_failed h _ _ _
    | some x =>
      obtain ⟨ref, parent⟩ := x
      have hparent := h.live?_eq_some hlive
      have hget := (Option.filter_eq_some_iff.mp hparent).1
      simp only [hparent, show parent.artifact.payload = parent.payload from rfl,
        show parent.artifact.securityVersion = parent.securityVersion from rfl]
      cases howner : parent.payload.accountId with
      | none => exact completes_of_failed h _ _ _
      | some a =>
        have howner' : Shelf.canonical (some a) = true := by
          rw [← howner]
          exact hshelf.account hget
        simp only [h.shows.version howner']
        have hsuspended := fun c => h.suspend (Nat.le_refl s.tick) c
        have hheap : s.heap ref = some parent := (record?_eq_some.mp (live?_eq_some.mp hlive).1).2
        cases hversion : sh.version key.realm a with
        | none =>
          refine completes_of_suspend ?_
          simp only [resume, upsertResume, State.tock, State.suspend, hheap, true_or, if_true]
          exact completes_of_failed (hsuspended _) _ _ _
        | some v =>
          by_cases hstale : parent.securityVersion = some v
          · simp only [hstale, true_and]
            by_cases hother : accountId = none ∨ accountId = some a
            · have hsame : ¬(accountId.isSome = true ∧ accountId ≠ some a) := by
                rintro ⟨hsome, hne⟩
                rcases hother with rfl | rfl
                · cases hsome
                · exact hne rfl
              simp only [if_pos hother]
              refine completes_of_suspend ?_
              simp only [resume, upsertResume, State.tock, State.suspend, hheap, hstale, howner,
                reduceCtorEq, ne_eq, not_true_eq_false, or_self, if_false, if_neg hsame]
              refine upsertOwn_saved (hsuspended _) (Nat.le_succ _) howner' hversion (by simp) ?_
              intro g' hg'
              cases hg'
              exact ⟨ref, parent, hlive, rfl, hstale⟩
            · have hdiffers : accountId.isSome = true ∧ accountId ≠ some a := by
                rw [not_or] at hother
                exact ⟨Option.isSome_iff_ne_none.mpr hother.1, hother.2⟩
              simp only [if_neg hother]
              refine completes_of_suspend ?_
              simp only [resume, upsertResume, State.tock, State.suspend, hheap, hstale, howner,
                reduceCtorEq, ne_eq, not_true_eq_false, or_self, if_false, if_pos hdiffers]
              exact completes_of_failed (hsuspended _) _ _ _
          · simp only [hstale, false_and, if_false]
            refine completes_of_suspend ?_
            simp only [resume, upsertResume, State.tock, State.suspend, hheap, ne_eq, hstale,
              not_false_eq_true, or_true, if_true]
            exact completes_of_failed (hsuspended _) _ _ _

theorem replayed_iff (h : Tied s sh) (key : Key) : sh.replayed now key = true ↔
    key.model = "ReplayDetection" ∧ (s.live? now key).isSome = true := by
  simp only [Shelf.replayed, ← h.shows.live? key, Bool.and_eq_true, beq_iff_eq, Option.isSome_map]

theorem upsert_replayed (h : Tied s sh) {key : Key} (p : Payload) (expiresIn : Option Int)
    (hreplay : sh.replayed now key = true) :
    Completes now s.tick 3 (upsert s now key p expiresIn) .refused sh := by
  simp only [upsert, if_pos ((replayed_iff h key).mp hreplay)]
  exact completes_of_failed h _ _ _

/-- Where the consumption is carried along, the bucket gets what the shelf gets. -/
theorem saved_eq (h : Rep s sh) {key : Key} {p : Payload} (hcarries : sh.carries key p = true)
    (expiresIn : Option Int) (owner : Option (String × Nat)) :
    s.saved now key p expiresIn owner = sh.bound now key p expiresIn owner := by
  rw [State.saved, mergeConsumed_eq h hcarries]
  rfl

/-- And only there. -/
theorem carries_of_saved_eq {key : Key} {p : Payload} {expiresIn : Option Int}
    {owner : Option (String × Nat)} (hp : Shelf.properPayload p expiresIn = true)
    (hsame : s.saved now key p expiresIn owner = sh.bound now key p expiresIn owner) :
    sh.carries key p = true := by
  have hconsumed := congrArg (·.payload.consumed) hsame
  simp only [State.saved, Shelf.bound] at hconsumed
  unfold Shelf.carries
  rcases Option.eq_none_or_eq_some ((sh.artifacts.get? key).bind (·.payload.consumed)) with
    hold | ⟨c, hold⟩
  · simp only [hold]
  · rcases Option.eq_none_or_eq_some p.consumed with hnew | ⟨c', hnew⟩
    · simp only [hold, hnew, decide_true, Bool.true_or]
    · have hpos : 0 < c' := by
        simp only [Shelf.properPayload, Bool.and_eq_true, hnew, decide_eq_true_eq] at hp
        exact hp.1.2
      have hmerged : (mergeConsumed (s.record? key) p).consumed = some c' := by
        have hmarked : p.isConsumed = true := by
          simp [Payload.isConsumed, hnew, show c' ≠ 0 by omega]
        unfold mergeConsumed
        split
        · exact hnew
        · rw [hmarked, Bool.not_true, Bool.and_false, if_neg (by decide)]
          exact hnew
      rw [hmerged, hold, Option.some_or] at hconsumed
      simp only [hold, hnew, hconsumed, decide_true, Bool.or_true]

theorem upsert_admitted (h : Rep s sh) {key : Key} {p : Payload} {expiresIn : Option Int}
    (hadmits : sh.admits now (.upsert key p expiresIn) = true) :
    Completes now s.tick 3 (upsert s now key p expiresIn)
      (sh.perform now (.upsert key p expiresIn)).2 (sh.perform now (.upsert key p expiresIn)).1 := by
  simp only [Shelf.admits, Bool.and_eq_true] at hadmits
  obtain ⟨⟨-, hp⟩, hagrees⟩ := hadmits
  by_cases hreplay : sh.replayed now key = true
  · have hthere := (replayed_iff h.toTied key).mp hreplay
    obtain ⟨⟨ref, r⟩, hr⟩ := Option.isSome_iff_exists.mp hthere.2
    have hget := h.shows.get?.mpr ⟨ref, r, (live?_eq_some.mp hr).1, rfl⟩
    simp only [Shelf.perform, hthere.1, hget, Option.isSome_some, and_self, if_true]
    exact upsert_replayed h.toTied p expiresIn hreplay
  have hcompletes := upsert_completes now expiresIn h.toTied h.shelf
    (Shelf.canonical_of_proper hp) fun hthere => hreplay ((replayed_iff h.toTied key).mpr hthere)
  cases hbinding : sh.binding now key.realm p with
  | none =>
    rw [hbinding] at hcompletes
    simpa only [Shelf.perform, hbinding, ite_self] using hcompletes
  | some owner =>
    rw [hbinding] at hcompletes
    have hagrees' := hagrees
    simp only [Shelf.agrees, hbinding, Option.isNone_some, hreplay, Bool.false_or, Bool.and_eq_true]
      at hagrees'
    have hfresh := Shelf.fresh_of_unexpired hagrees'.2 hreplay
    simp only [Shelf.perform, if_neg hfresh, hbinding]
    rw [← saved_eq h hagrees'.1.1]
    exact hcompletes

/-! ## Queries -/

/-- The record that has the code is the one that is selected. -/
theorem select_of_holds (h : Rep s sh) {c : Column} {key : Key} {ref : Nat} {r : Record}
    (hrecord : s.record? key = some (ref, r)) (hlive : r.live now = true)
    (hc : Shelf.holds c key r.payload = true) :
    select s now key.realm key.model c = some (key, ref, r) := by
  obtain ⟨hstore, hheap⟩ := record?_eq_some.mp hrecord
  have hholds : holds c key r = true := hc
  unfold select
  rw [OrderedMap.findFirst?_eq_some hstore (by simp [hheap, hlive, hholds]), Option.bind_some, hheap,
    Option.map_some]
  intro k' ref' hstore' hp
  obtain ⟨r', hheap'⟩ := h.wf.store hstore'
  simp only [hheap', Bool.and_eq_true, decide_eq_true_eq] at hp
  exact h.shelf.holds_unique
    (h.shows.get?.mpr ⟨ref', r', record?_eq_some.mpr ⟨hstore', hheap'⟩, rfl⟩)
    (h.shows.get?.mpr ⟨ref, r, hrecord, rfl⟩) hp.1.1 hp.1.2 hp.2.2 hc

theorem current_iff (h : Rep s sh) {key : Key} {ref : Nat} {r : Record}
    (hrecord : s.record? key = some (ref, r)) (realm : String) :
    sh.current realm r.artifact = true ↔ r.securityVersion = none ∨
      r.payload.accountId.bind (s.securityVersionFor realm) = r.securityVersion := by
  have haccount : r.payload.accountId.bind (s.securityVersionFor realm) =
      r.payload.accountId.bind (sh.version realm) := by
    have hcanonical := h.shelf.account (h.shows.get?.mpr ⟨ref, r, hrecord, rfl⟩)
    cases ha : r.payload.accountId with
    | none => rfl
    | some a =>
      refine h.shows.version ?_
      rw [← ha]
      exact hcanonical
  rw [haccount]
  simp only [Shelf.current, Record.artifact]
  cases r.securityVersion with
  | none => simp
  | some v =>
    simp only [reduceCtorEq, false_or]
    exact decide_eq_true_iff

theorem find_completes (h : Rep s sh) (realm model : String) (c : Column) :
    Completes now s.tick 3 (find s now realm model c)
      (.found ((sh.find now realm model c).map (·.2.payload))) sh := by
  have habsent : ∀ {t : State} {call n : Nat}, Tied t sh →
      Completes now call n (t.finish call, .absent) (.found none) sh :=
    fun ht => completes_of_ne (by simp) (ht.finish _)
  unfold find
  cases hselect : select s now realm model c with
  | none =>
    cases hfind : sh.find now realm model c with
    | none => exact habsent h.toTied
    | some x =>
      obtain ⟨key, a⟩ := x
      obtain ⟨hget, rfl, rfl, hc, hlive, -⟩ := (Shelf.find_eq_some h.shelf).mp hfind
      obtain ⟨ref, r, hrecord, rfl⟩ := h.shows.get?.mp hget
      rw [select_of_holds h hrecord hlive hc] at hselect
      cases hselect
  | some x =>
    obtain ⟨key, ref, r⟩ := x
    obtain ⟨hrecord, rfl, rfl, hlive, hc⟩ := select_eq_some hselect
    have hheap := (record?_eq_some.mp hrecord).2
    have hget := h.shows.get?.mpr ⟨ref, r, hrecord, rfl⟩
    have hiff := current_iff h hrecord key.realm
    by_cases hcurrent : sh.current key.realm r.artifact = true
    · rw [(Shelf.find_eq_some h.shelf).mpr ⟨hget, rfl, rfl, hc, hlive, hcurrent⟩]
      have hfound : ∀ {t : State} {call n : Nat}, Tied t sh →
          Completes now call n (t.finish call, .found key ref r.payload)
            (.found (some r.payload)) sh :=
        fun ht => completes_of_ne (by simp) (ht.finish _)
      by_cases hnone : r.securityVersion = none
      · simp only [if_pos hnone]
        exact hfound h.toTied
      · simp only [if_neg hnone]
        refine completes_of_suspend ?_
        simp only [resume, findResume, State.tock, State.suspend, hheap, ne_eq,
          (hiff.mp hcurrent).resolve_left hnone, not_true_eq_false, if_false]
        exact hfound (h.suspend (Nat.le_refl _) _)
    · have hnone : sh.find now key.realm key.model c = none := by
        rw [Option.eq_none_iff_forall_not_mem]
        rintro ⟨k, a⟩ hfind
        obtain ⟨hget', hrealm, hmodel, hc', -, hcurrent'⟩ := (Shelf.find_eq_some h.shelf).mp hfind
        obtain rfl := h.shelf.holds_unique hget' hget hrealm hmodel hc' hc
        rw [hget] at hget'
        cases hget'
        exact hcurrent hcurrent'
      rw [hnone]
      rw [hiff, not_or] at hcurrent
      simp only [if_neg hcurrent.1]
      refine completes_of_suspend ?_
      simp only [resume, findResume, State.tock, State.suspend, hheap, ne_eq, hcurrent.2,
        not_false_eq_true, if_true]
      exact habsent (h.suspend (Nat.le_refl _) _)

/-! ## Consumption and deletion -/

theorem markConsumed_shows (now : Instant) (h : Rep s sh) (key : Key) :
    (∃ s' sh', markConsumed s now key = some s' ∧ sh.markConsumed now key = some sh' ∧
      Tied s'.tock sh') ∨
    (markConsumed s now key = none ∧ sh.markConsumed now key = none) := by
  unfold markConsumed Shelf.markConsumed
  cases hlive : s.live? now key with
  | none =>
    rw [h.live?_eq_none hlive]
    exact .inr ⟨rfl, rfl⟩
  | some x =>
    obtain ⟨ref, r⟩ := x
    obtain ⟨hstore, hheap⟩ := record?_eq_some.mp (live?_eq_some.mp hlive).1
    have hshelf := h.live?_eq_some hlive
    have hget := (Option.filter_eq_some_iff.mp hshelf).1
    simp only [hshelf, show r.artifact.payload = r.payload from rfl]
    rcases Option.eq_none_or_eq_some r.payload.consumed with hnone | ⟨c, hc⟩
    · have hfree : ¬r.payload.isConsumed = true := by simp [Payload.isConsumed, hnone]
      simp only [if_neg hfree, if_pos hnone]
      exact .inl ⟨_, _, rfl, rfl, h.wf.consume hheap,
        h.shows.change (r := r.consume now) hstore rfl rfl rfl⟩
    · have hpos : 0 < c := h.shelf.consumed hget hc
      have hmarked : r.payload.isConsumed = true := by
        simp [Payload.isConsumed, hc, show c ≠ 0 by omega]
      simp only [if_pos hmarked, hc, reduceCtorEq, if_false]
      exact .inr ⟨trivial, trivial⟩

theorem accountGrant_shows (h : Tied s sh) (realm accountId g : String) :
    accountGrant s realm accountId g = sh.accountGrant realm accountId g := by
  unfold accountGrant Shelf.accountGrant
  rw [← h.shows.record]
  cases s.record? ⟨realm, "Grant", g⟩ with
  | none => rfl
  | some x => rfl

theorem Tied.revokeAccount (h : Tied s sh) (realm accountId : String) :
    Tied (Memory.revokeAccount s realm accountId) (sh.revokeAccount realm accountId) := by
  refine ⟨h.wf.filter _,
    h.shows.filter (p := fun key ref => !doomed s realm accountId key ref) h.wf ?_ rfl rfl rfl⟩
  intro key ref r hr
  have hgrant := fun g => accountGrant_shows h realm accountId g
  simp only [doomed, Shelf.doomed, hr, hgrant]
  rfl

theorem Tied.revokeByGrantId (h : Tied s sh) (realm model g : String) :
    Tied (Memory.revokeByGrantId s realm model g) (sh.keep fun key a =>
      !(key.realm = realm && key.model = model && a.payload.grantId = some g)) := by
  have hstore : (Memory.revokeByGrantId s realm model g).store = s.store.filter fun key ref =>
      !(key.realm = realm && key.model = model &&
        (s.heap ref).any fun r => r.payload.grantId = some g) := by
    unfold Memory.revokeByGrantId
    dsimp only
    congr 1
    funext key ref
    cases s.heap ref <;> rfl
  refine ⟨h.wf.filter _, h.shows.filter h.wf ?_ rfl rfl hstore⟩
  intro key ref r hr
  simp only [hr]
  rfl

theorem Tied.destroy (h : Tied s sh) (key : Key) :
    Tied (Memory.destroy s key) { sh with artifacts := sh.artifacts.erase key } :=
  ⟨h.wf.filter _, h.shows.filter h.wf (fun _ => rfl) rfl rfl rfl⟩

/-! ## Mutations of an account -/

/-- From its second stretch on, a mutation revokes and returns. -/
theorem mutation_completes (now : Instant) (h : Tied s sh) {call : Nat} (hcall : call ≤ s.tick)
    (n : Nat) (kind : Kind) (realm accountId : String) :
    Completes now call (n + 2) (s.suspend call (.mutation kind realm accountId .changed), .suspended)
      .done (sh.revokeAccount realm accountId) := by
  refine completes_of_suspend ?_
  refine completes_of_suspend ?_
  have hrevoked := (h.suspend hcall (.mutation kind realm accountId .changed)).revokeAccount
    realm accountId
  exact completes_of_ne (o := .mutated) (by simp)
    ((hrevoked.suspend (Nat.le_succ_of_le hcall) _).finish call)

/-- A call whose first stretch is a step of the thread. -/
theorem runCall_of_completes {a : Action} {x : State × Outcome} {ans : Answer}
    (hperform : Memory.perform s now a = some x) (hcall : s.callOf a = s.tick)
    (h : Completes now s.tick 3 x ans sh) :
    ∃ s' o, runCall s now a = some (s', o) ∧ o.answer = ans ∧ Tied s' sh := by
  obtain ⟨s', o, hcomplete, ha, hrep⟩ := h
  refine ⟨s', o, ?_, ha, hrep⟩
  simp only [runCall, step, hperform, hcall, Option.map_some, Option.bind_some, hcomplete]

theorem consume_completes (h : Rep s sh) (key : Key) :
    Completes now s.tick 3 (consume s now key) (sh.perform now (.consume key)).2
      (sh.perform now (.consume key)).1 := by
  unfold consume
  simp only [Shelf.perform]
  rcases markConsumed_shows now h key with ⟨s', sh', hs, hsh, hrep⟩ | ⟨hs, hsh⟩
  · simp only [hs, hsh]
    exact completes_of_ne (o := .done) (by simp) hrep
  · simp only [hs, hsh]
    exact completes_of_failed h.toTied _ _ _

theorem claimInitialAccessToken_completes (h : Rep s sh) (realm id : String) :
    Completes now s.tick 3 (claimInitialAccessToken s now realm id)
      (sh.perform now (.claimInitialAccessToken realm id)).2
      (sh.perform now (.claimInitialAccessToken realm id)).1 := by
  unfold claimInitialAccessToken
  simp only [Shelf.perform]
  rcases markConsumed_shows now h ⟨realm, "InitialAccessToken", id⟩ with
    ⟨s', sh', hs, hsh, hrep⟩ | ⟨hs, hsh⟩
  · simp only [hs, hsh]
    exact completes_of_ne (o := .claimed true) (by simp) hrep
  · simp only [hs, hsh]
    exact completes_of_ne (o := .claimed false) (by simp) (h.toTied.finish _)

/-- From its second stretch on, a mutation changes the user, revokes and returns. -/
theorem mutation_ends (h : Tied s sh) (call : Nat) {realm : String} {u : Uuid} (slot : Slot)
    {kind : Kind} (hcall : call ≤ s.tick)
    (hcalls : s.calls call = some (.mutation kind realm u.text .begun))
    (hchange : mutationResume s call kind realm u.text .begun =
      ((s.withUser realm u.text slot).suspend call (.mutation kind realm u.text .changed),
        .suspended)) :
    ∃ s', (complete now call 3 s .suspended).map (fun r => (r.1, r.2.answer)) = some (s', .done) ∧
      Tied s' ((sh.withUser realm u slot).revokeAccount realm u.text) := by
  rw [complete_suspended hcalls]
  simp only [resume, hchange]
  obtain ⟨s', o, hcomplete, ha, hrep⟩ :=
    mutation_completes now (h.withUser realm u slot) hcall 0 kind realm u.text
  exact ⟨s', by simp only [hcomplete, Option.map_some, ha], hrep⟩

theorem mutate_performs (now : Instant) (h : Tied s sh) (realm : String) (u : Uuid)
    (enabled : Option Bool) :
    ∃ s', mutation s now .mutate realm u.text enabled =
        some (s', (sh.perform now (.mutateAccountSecurity realm u enabled)).2) ∧
      Tied s' (sh.perform now (.mutateAccountSecurity realm u enabled)).1 := by
  have husers := h.shows.users realm u
  cases hrow : (sh.users realm u).value? with
  | none =>
    refine ⟨(s.finish s.tick).tock, ?_, ?_⟩
    · simp [mutation, step, Memory.perform, mutationStart, Shelf.perform, husers, hrow]
    · simpa only [Shelf.perform, hrow] using h.finish s.tick
  | some row =>
    have hlive : sh.users realm u = .live row := Epoch.Cell.value?_eq_some.mp hrow
    have hbegun := h.suspend (Nat.le_refl s.tick) (.mutation .mutate realm u.text .begun)
    have hcalls : (s.suspend s.tick (.mutation .mutate realm u.text .begun)).tock.calls s.tick =
        some (.mutation .mutate realm u.text .begun) := Function.update_self ..
    simp only [mutation, step, Memory.perform, mutationStart, State.callOf, husers, hrow,
      Option.map_some, Option.bind_some, reduceCtorEq, if_false, Shelf.perform]
    cases enabled with
    | none =>
      refine mutation_ends hbegun s.tick (.live (Shelf.mutated row none)) (Nat.le_succ _) hcalls ?_
      simp only [mutationResume, State.tock, State.suspend, husers, hlive, bumped, Shelf.mutated,
        Option.getD_none]
    | some b =>
      have hset : setUser (.live row) { row with enabled := b } =
          some (.live { row with enabled := b }) := by
        simp only [setUser, Nat.le_refl, if_true]
      have hcalled : callback (s.suspend s.tick (.mutation .mutate realm u.text .begun)).tock now
          realm u.text (some b) =
          some ((s.suspend s.tick (.mutation .mutate realm u.text .begun)).tock.withUser realm u.text
            (.live { row with enabled := b })).tock := by
        simp only [callback, step, Memory.perform, State.tock, State.suspend, husers, hlive,
          Epoch.Cell.value?, Option.bind_some, hset, Option.map_some]
      rw [hcalled, Option.bind_some, ← Shelf.withUser_withUser sh realm u
        (.live { row with enabled := b })]
      refine mutation_ends (hbegun.withUser realm u _).tock s.tick
        (.live (Shelf.mutated row (some b))) (Nat.le_add_right _ 2) hcalls ?_
      simp only [mutationResume, State.tock, State.withUser, and_self, if_true, bumped,
        Shelf.mutated, Option.getD_some]

theorem delete_performs (now : Instant) (h : Tied s sh) (realm : String) (u : Uuid) :
    ∃ s', mutation s now .delete realm u.text none =
        some (s', (sh.perform now (.deleteAccount realm u)).2) ∧
      Tied s' (sh.perform now (.deleteAccount realm u)).1 := by
  have husers := h.shows.users realm u
  cases hrow : (sh.users realm u).value? with
  | none =>
    refine ⟨(s.finish s.tick).tock, ?_, ?_⟩
    · simp [mutation, step, Memory.perform, mutationStart, Shelf.perform, husers, hrow]
    · simpa only [Shelf.perform, hrow] using h.finish s.tick
  | some row =>
    have hbegun := h.suspend (Nat.le_refl s.tick) (.mutation .delete realm u.text .begun)
    have hcalls : (s.suspend s.tick (.mutation .delete realm u.text .begun)).tock.calls s.tick =
        some (.mutation .delete realm u.text .begun) := Function.update_self ..
    simp only [mutation, step, Memory.perform, mutationStart, State.callOf, husers, hrow,
      Option.map_some, Option.bind_some, reduceCtorEq, if_false, Shelf.perform, callback]
    refine mutation_ends hbegun s.tick .retired (Nat.le_succ _) hcalls ?_
    simp only [mutationResume, State.tock, State.suspend, husers, hrow]

/-! ## The adapter -/

/-- An admitted call of the in-memory adapter does what the shelf does. -/
theorem refines : Transition.Refines performCall (fun sh (c : Instant × Request) => sh.perform c.1 c.2)
    (fun sh c => sh.admits c.1 c.2 = true) Rep := by
  rintro s sh ⟨now, r⟩ h hadmits
  have hshelf := h.shelf.perform hadmits
  have hrun : ∀ {a : Action} {x : State × Outcome}, action r = some a →
      Memory.perform s now a = some x → s.callOf a = s.tick →
      Completes now s.tick 3 x (sh.perform now r).2 (sh.perform now r).1 →
      ∃ s', (action r).bind (fun a => (runCall s now a).map fun x => (x.1, x.2.answer)) =
        some (s', (sh.perform now r).2) ∧ Rep s' (sh.perform now r).1 := by
    intro a x ha hperform hcall hcompletes
    obtain ⟨s', o, hcall, hanswer, htied⟩ := runCall_of_completes hperform hcall hcompletes
    refine ⟨s', ?_, htied, hshelf⟩
    simp only [ha, Option.bind_some, hcall, Option.map_some, hanswer]
  cases r with
  | upsert key p expiresIn => exact hrun rfl rfl rfl (upsert_admitted h hadmits)
  | find realm model c => exact hrun rfl rfl rfl (find_completes h realm model c)
  | consume key => exact hrun rfl rfl rfl (consume_completes h key)
  | claimInitialAccessToken realm id =>
    exact hrun rfl rfl rfl (claimInitialAccessToken_completes h realm id)
  | destroy key =>
    exact hrun rfl rfl rfl (completes_of_ne (o := .done) (by simp) (h.destroy key).tock)
  | revokeByGrantId realm model g =>
    exact hrun rfl rfl rfl
      (completes_of_ne (o := .done) (by simp) (h.revokeByGrantId realm model g).tock)
  | setUser realm u row =>
    obtain ⟨slot, hslot⟩ := Option.isSome_iff_exists.mp hadmits
    have hperform : Memory.perform s now (.setUser realm u.text row) =
        some (s.withUser realm u.text slot, .done) := by
      simp only [Memory.perform, h.shows.users, hslot, Option.map_some]
    refine hrun rfl hperform rfl ?_
    simp only [Shelf.perform, hslot]
    exact completes_of_ne (o := .done) (by simp) (h.withUser realm u slot).tock
  | mutateAccountSecurity realm u enabled =>
    obtain ⟨s', hperform, htied⟩ := mutate_performs now h.toTied realm u enabled
    exact ⟨s', hperform, htied, hshelf⟩
  | deleteAccount realm u =>
    obtain ⟨s', hperform, htied⟩ := delete_performs now h.toTied realm u
    exact ⟨s', hperform, htied, hshelf⟩

end AuthMe.Adapters.Memory

import AuthMe.Passwords.Owner

/-!
# The last password wins

In every run of the requests on an account, the stored hash verifies exactly the password of the
last change that was committed, a transaction that changes no password leaves the hash as it is, a
rehash replaces only a hash of that same password, and no hash that has been replaced is ever stored
again (`last_password_wins`).
-/

namespace AuthMe.Passwords

open Service Scim
open Transition (Run Always exec)

abbrev Pool := Service.Pool operations State Request Reply

abbrev Event := Service.Event Request Choice Change

abbrev Output := Service.Output operations State

abbrev Trace := List (Event × Output)

variable {cfg : Config} {s s' : State} {log : Log} {op : Op} {t : Nat}

/-! ## The password that a trace shows -/

/-- What each call has hashed last, and the password that was set last. -/
structure Told where
  hashed : Nat → Option String
  current : String

/-- A transaction was committed. -/
def commits : Entry operations State → Bool
  | ⟨.commit _, .committed _, _, _⟩ => true
  | _ => false

/-- A transaction that is committed sets the password that its request has hashed, if it has hashed
one. -/
def Told.see (told : Told) : Output → Told
  | .replied n x =>
    { hashed := Function.update told.hashed n ((hashedBy x).or (told.hashed n))
      current := if commits x then (told.hashed n).getD told.current else told.current }
  | _ => told

def told (created : String) (tr : Trace) : Told :=
  tr.foldl (fun told x => told.see x.2) ⟨fun _ => none, created⟩

/-- The password of the last change that was committed, or the one that the account was created
with. -/
def lastPassword (created : String) (tr : Trace) : String := (told created tr).current

theorem told_snoc (created : String) (tr : Trace) (x : Event × Output) :
    told created (tr ++ [x]) = (told created tr).see x.2 := by
  rw [told, List.foldl_append]
  rfl

/-- The stored hash after a step, where an operation was performed. -/
def storedBy : Output → Option String
  | .replied _ x => some x.after.row.passwordHash
  | _ => none

/-- The hashes that a trace has shown in the row. -/
def storedHashes (first : String) (tr : Trace) : List String :=
  first :: tr.filterMap fun x => storedBy x.2

theorem storedHashes_snoc (first : String) (tr : Trace) (x : Event × Output) :
    storedHashes first (tr ++ [x]) = storedHashes first tr ++ (storedBy x.2).toList := by
  rw [storedHashes, List.filterMap_append]
  simp only [List.filterMap_cons, List.filterMap_nil, storedHashes, List.cons_append]
  cases storedBy x.2 <;> rfl

/-! ## The invariant -/

structure Inv (cfg : Config) (first created : String) (p : Pool) (tr : Trace) : Prop where
  wf : p.Wf
  lock : p.store.toLockedRow.Wf
  obeys : p.Obeys (passwords cfg) (fun _ => Allowed) (fun _ _ _ => True)
  owner : ∀ n c, p.calls n = some c → Owner p.store c.log
  functional : (p.store.hashes.map Prod.fst).Nodup
  begun : ∀ t n m c d, p.calls n = some c → p.calls m = some d → Owns c.log t → Owns d.log t →
    n = m
  computed : ∀ password hash n m c d, p.calls n = some c → p.calls m = some d →
    Answered c.log (.hashPassword password) (some hash) →
      Answered d.log (.hashPassword password) (some hash) → n = m
  told : ∀ n, (told created tr).hashed n = (p.calls n).bind fun c => hashed c.log
  current : (p.store.row.passwordHash, lastPassword created tr) ∈ p.store.hashes
  shown : p.store.row.passwordHash ∈ storedHashes first tr
  known : ∀ hash ∈ storedHashes first tr, hash ∈ p.store.hashes.map Prod.fst
  unspent : ∀ n c password hash, p.calls n = some c → Unspent c.log →
    Answered c.log (.hashPassword password) (some hash) → hash ∉ storedHashes first tr

theorem inv_initial (row : UserRow) (password : String) :
    Inv cfg row.passwordHash password (.initial (.created row password)) [] where
  wf := Pool.wf_initial _
  lock := LockedRow.wf_initial row
  obeys := by
    intro n c hc
    cases hc
  owner := by
    intro n c hc
    cases hc
  functional := List.nodup_singleton _
  begun := by
    intro t n m c d hc
    cases hc
  computed := by
    intro password hash n m c d hc
    cases hc
  told := fun _ => rfl
  current := List.mem_singleton_self _
  shown := List.mem_singleton_self _
  known := fun _ h => h
  unspent := by
    intro n c password hash hc
    cases hc

section Invariant

variable {first created : String} {p p' : Pool} {tr : Trace} {e : Event} {o : Output} {n : Nat}
  {c : Service.Call operations State Request Reply} {x : Entry operations State}

/-- A hash verifies one password. -/
theorem Inv.unique (h : Inv cfg first created p tr) {hash a b : String}
    (ha : (hash, a) ∈ p.store.hashes) (hb : (hash, b) ∈ p.store.hashes) : a = b := by
  have hinj := List.inj_on_of_nodup_map h.functional ha hb rfl
  cases hinj
  rfl

/-- The call performs an operation that it is allowed to. -/
theorem Inv.allowed (h : Inv cfg first created p tr) (hc : p.calls n = some c) {op : Op}
    {next : op.Res → Route Reply} (hprogram : c.program = .await op next) : Allowed c.log op := by
  have hobeys := h.obeys n c hc
  rw [hprogram] at hobeys
  exact hobeys.1

/-! ### The store -/

theorem Inv.lock_step (h : Inv cfg first created p tr)
    (hstep : step (passwords cfg) p e = some (p', o)) : p'.store.toLockedRow.Wf := by
  cases step_move hstep with
  | start r => exact h.lock
  | reply _ _ hanswer => exact (answer_effect hanswer).wf h.lock
  | change hchange => exact (change_effect hchange).2.2.2 h.lock

theorem Inv.functional_step (h : Inv cfg first created p tr)
    (hstep : step (passwords cfg) p e = some (p', o)) :
    (p'.store.hashes.map Prod.fst).Nodup := by
  cases step_move hstep with
  | start r => exact h.functional
  | reply _ _ hanswer => exact (answer_effect hanswer).functional h.functional
  | change hchange =>
    rw [(change_effect hchange).2.1]
    exact h.functional

theorem Inv.hashes_step (h : Inv cfg first created p tr)
    (hstep : step (passwords cfg) p e = some (p', o)) :
    ∀ y ∈ p.store.hashes, y ∈ p'.store.hashes := by
  cases step_move hstep with
  | start r => exact fun _ hy => hy
  | reply hc hprogram hanswer =>
    exact ((answer_effect hanswer).apart (T := fun _ => False) (fun _ _ hT => hT)
      (fun _ hT => hT.elim) (h.allowed hc hprogram)).2
  | change hchange =>
    rw [(change_effect hchange).2.1]
    exact fun _ hy => hy

/-! ### The owners -/

/-- What a step leaves alone for a call that does not take it. -/
theorem Inv.others (h : Inv cfg first created p tr)
    (hstep : step (passwords cfg) p e = some (p', o)) (hc : p.calls n = some c)
    (he : ∀ choice, e ≠ .resume n choice) :
    p.store.toLockedRow.Apart (Owns c.log) p'.store.toLockedRow := by
  cases step_move hstep with
  | start r => exact .refl _ _
  | @reply k choice old op next res s hold hprogram hanswer =>
    have hk : k ≠ n := by
      rintro rfl
      exact he choice rfl
    refine ((answer_effect hanswer).apart ?_ (h.owner n c hc).begun (h.allowed hold hprogram)).1
    intro t hown hother
    exact hk (h.begun t k n old c hold hc hown hother)
  | change hchange => exact (change_effect hchange).1 _

theorem Inv.owner_step (h : Inv cfg first created p tr)
    (hstep : step (passwords cfg) p e = some (p', o)) (hc : p'.calls n = some c) :
    Owner p'.store c.log := by
  cases (step_move hstep).became hc with
  | start _ _ hnew =>
    subst hnew
    exact owner_nil _
  | @reply old op next res hold hprogram hanswer hnew _ =>
    subst hnew
    obtain ⟨choice, hanswer⟩ := hanswer
    exact (h.owner n old hold).reply h.lock (h.allowed hold hprogram) (answer_effect hanswer) _
  | same hold he => exact (h.owner n c hold).apart (h.others hstep hold he) (h.hashes_step hstep)

/-- A transaction that is begun is new. -/
theorem Inv.new_transaction (h : Inv cfg first created p tr) {t : Nat} {choice : Choice} {s : State}
    (hanswer : answer cfg p.store choice .begin = some (some t, s)) (hc : p.calls n = some c) :
    ¬ Owns c.log t := by
  intro hown
  have hlt := (h.owner n c hc).begun t hown
  cases answer_effect hanswer
  exact Nat.lt_irrefl _ hlt

/-- A hash that is computed is new. -/
theorem new_hash {password hash : String} {choice : Choice}
    (hanswer : (passwords cfg).answer s choice (.hashPassword password) = some (some hash, s')) :
    hash ∉ s.hashes.map Prod.fst := by
  have hanswer : answer cfg s choice (.hashPassword password) = some (some hash, s') := hanswer
  cases answer_effect hanswer with
  | hashPassword _ hnew => exact hnew

/-! ### What a call has hashed -/

/-- What a call has hashed last is what the trace shows. -/
theorem Inv.told_step (h : Inv cfg first created p tr)
    (hstep : step (passwords cfg) p e = some (p', o)) (n : Nat) :
    (Passwords.told created (tr ++ [(e, o)])).hashed n =
      (p'.calls n).bind fun c => hashed c.log := by
  rw [told_snoc]
  cases step_move hstep with
  | start r =>
    change (Passwords.told created tr).hashed n = _
    rw [h.told n]
    by_cases hn : n = p.next
    · subst hn
      have hnone : p.calls p.next = none := by
        apply Option.eq_none_iff_forall_ne_some.mpr
        intro c hc
        exact Nat.lt_irrefl _ (h.wf p.next c hc)
      simp [Pool.set, hnone, hashed]
    · simp [Pool.set, Function.update_of_ne hn]
  | change _ => exact h.told n
  | @reply k choice c op next res s hc hprogram hanswer =>
    change Function.update (Passwords.told created tr).hashed k _ n = _
    by_cases hn : n = k
    · subst hn
      simp [Pool.set, Call.reply, h.told n, hc, hashed_cons]
    · simp [Pool.set, Function.update_of_ne hn, h.told n]

/-- The password that was set last, after an operation of a call. -/
theorem Inv.last_replied (h : Inv cfg first created p tr) (hc : p.calls n = some c) :
    lastPassword created (tr ++ [(e, .replied n x)]) =
      if commits x then (hashed c.log).getD (lastPassword created tr)
      else lastPassword created tr := by
  have hhashed := h.told n
  rw [hc] at hhashed
  rw [lastPassword, told_snoc]
  change (if commits x then ((Passwords.told created tr).hashed n).getD _ else _) = _
  rw [hhashed]
  rfl

/-! ### The stored hash -/

/-- What a call does to the stored hash with its operation. -/
theorem Inv.stored (h : Inv cfg first created p tr) {choice : Choice}
    (hstep : step (passwords cfg) p (.resume n choice) = some (p', .replied n x))
    (hc : p.calls n = some c) : Stored p.store p'.store c.log x := by
  generalize he : Event.resume n choice = e at hstep
  generalize ho : Output.replied n x = o at hstep
  cases step_move hstep with
  | start r => cases he
  | change _ => cases he
  | @reply k choice' old op next res s hold hprogram hanswer =>
    cases he
    cases ho
    cases hold.symm.trans hc
    exact (answer_effect hanswer).stored (h.owner n c hc) (h.allowed hc hprogram) _ _

theorem eq_of_commits (h : commits x = true) :
    ∃ t answered before after, x = ⟨.commit t, .committed answered, before, after⟩ := by
  unfold commits at h
  split at h
  · exact ⟨_, _, _, _, rfl⟩
  · cases h

/-- An operation of a call keeps the stored hash one of the password that was set last. -/
theorem Stored.current {password : String} (h : Stored s s' log x) (hown : Owner s log)
    (hgrows : ∀ y ∈ s.hashes, y ∈ s'.hashes)
    (hunique : ∀ hash a b, (hash, a) ∈ s.hashes → (hash, b) ∈ s.hashes → a = b)
    (hcurrent : (s.row.passwordHash, password) ∈ s.hashes) :
    (s'.row.passwordHash, if commits x then (hashed log).getD password else password) ∈
      s'.hashes := by
  cases h with
  | same hhash hno =>
    rw [hhash]
    split
    · rename_i hcommits
      obtain ⟨t, answered, before, after, hx⟩ := eq_of_commits hcommits
      rw [hno t answered before after hx]
      exact hgrows _ hcurrent
    · exact hgrows _ hcurrent
  | changed hhashed _ hanswer =>
    simp only [commits, ↓reduceIte, hhashed, Option.getD_some]
    exact hgrows _ (hown.hashed _ _ hanswer)
  | rehashed _ hverified hanswer =>
    rw [← hunique _ _ _ (hown.verified _ _ hverified) hcurrent]
    exact hgrows _ (hown.hashed _ _ hanswer)

theorem Inv.current_step (h : Inv cfg first created p tr)
    (hstep : step (passwords cfg) p e = some (p', o)) :
    (p'.store.row.passwordHash, lastPassword created (tr ++ [(e, o)])) ∈ p'.store.hashes := by
  have hgrows := h.hashes_step hstep
  cases step_move hstep with
  | start r =>
    rw [lastPassword, told_snoc]
    exact h.current
  | change hchange =>
    obtain ⟨-, hhashes, hhash, -⟩ := change_effect hchange
    rw [hhashes, hhash, lastPassword, told_snoc]
    exact h.current
  | @reply n choice c op next res s hc hprogram hanswer =>
    have hstored := h.stored hstep hc
    rw [h.last_replied hc]
    exact hstored.current (h.owner n c hc) hgrows (fun _ _ _ => h.unique) h.current

/-- A hash that an operation stores is one that its call has computed, and has not stored before. -/
theorem Stored.replaced (h : Stored s s' log x) : s'.row.passwordHash = s.row.passwordHash ∨
    (∃ password, Answered log (.hashPassword password) (some s'.row.passwordHash)) ∧
      Unspent log ∧ x.op.stores = true := by
  cases h with
  | same hhash _ => exact .inl hhash
  | changed _ hunspent hanswer => exact .inr ⟨⟨_, hanswer⟩, hunspent, rfl⟩
  | rehashed hunspent _ hanswer => exact .inr ⟨⟨_, hanswer⟩, hunspent, rfl⟩

/-- The hash that is stored after an operation is the one before it, or it was never there. -/
theorem Inv.never_back (h : Inv cfg first created p tr) {choice : Choice}
    (hstep : step (passwords cfg) p (.resume n choice) = some (p', .replied n x))
    (hc : p.calls n = some c) : p'.store.row.passwordHash = p.store.row.passwordHash ∨
      p'.store.row.passwordHash ∉ storedHashes first tr := by
  obtain hsame | ⟨⟨password, hanswer⟩, hunspent, -⟩ := (h.stored hstep hc).replaced
  · exact .inl hsame
  · exact .inr (h.unspent n c password _ hc hunspent hanswer)

theorem Inv.shown_step (h : Inv cfg first created p tr)
    (hstep : step (passwords cfg) p e = some (p', o)) :
    p'.store.row.passwordHash ∈ storedHashes first (tr ++ [(e, o)]) := by
  rw [storedHashes_snoc]
  cases step_move hstep with
  | start r => exact List.mem_append_left _ h.shown
  | change hchange =>
    rw [(change_effect hchange).2.2.1]
    exact List.mem_append_left _ h.shown
  | reply _ _ _ => exact List.mem_append_right _ (List.mem_singleton_self _)

theorem Inv.known_step (h : Inv cfg first created p tr)
    (hstep : step (passwords cfg) p e = some (p', o)) :
    ∀ hash ∈ storedHashes first (tr ++ [(e, o)]), hash ∈ p'.store.hashes.map Prod.fst := by
  intro hash hhash
  rw [storedHashes_snoc, List.mem_append] at hhash
  rcases hhash with hhash | hhash
  · obtain ⟨y, hy, hfst⟩ := List.mem_map.mp (h.known hash hhash)
    exact List.mem_map.mpr ⟨y, h.hashes_step hstep y hy, hfst⟩
  · have hcurrent := h.current_step hstep
    cases step_move hstep with
    | start r => cases hhash
    | change _ => cases hhash
    | reply _ _ _ =>
      obtain rfl := List.mem_singleton.mp hhash
      exact List.mem_map_of_mem (f := Prod.fst) hcurrent

theorem Inv.computed_step (h : Inv cfg first created p tr)
    (hstep : step (passwords cfg) p e = some (p', o)) {m : Nat}
    {d : Service.Call operations State Request Reply} (hc : p'.calls n = some c)
    (hd : p'.calls m = some d) {a b hash : String}
    (hca : Answered c.log (.hashPassword a) (some hash))
    (hdb : Answered d.log (.hashPassword b) (some hash)) : n = m := by
  have hsame : a = b := by
    have hnodup := h.functional_step hstep
    have hinj := List.inj_on_of_nodup_map hnodup ((h.owner_step hstep hc).hashed a hash hca)
      ((h.owner_step hstep hd).hashed b hash hdb) rfl
    cases hinj
    rfl
  subst hsame
  refine (step_move hstep).once (h.computed a hash) ?_ hc hd hca hdb
  intro choice s hanswer k call hcall hold
  have hknown := (h.owner k call hcall).hashed a hash hold
  exact new_hash hanswer (List.mem_map_of_mem (f := Prod.fst) hknown)

/-- A hash that was in the row before a step is not one that a call has still to store. -/
theorem Inv.unspent_before (h : Inv cfg first created p tr)
    (hstep : step (passwords cfg) p e = some (p', o)) (hc : p'.calls n = some c)
    (hunspent : Unspent c.log) {password hash : String}
    (hanswer : Answered c.log (.hashPassword password) (some hash)) :
    hash ∉ storedHashes first tr := by
  intro hmem
  rcases (step_move hstep).answered hc hanswer with ⟨old, hold, hanswer⟩ |
    ⟨_, choice, next, -, -, -, hanswer⟩
  · obtain ⟨new, hnew, hextends⟩ := extends_of_step h.wf hstep hold
    cases hnew.symm.trans hc
    exact h.unspent n old password hash hold (fun y hy => hunspent y (hextends.mem hy)) hanswer hmem
  · exact new_hash hanswer (h.known hash hmem)

/-- What an operation has put into the row was there before, or comes from a call that has now stored
a hash. -/
theorem Inv.stored_step (h : Inv cfg first created p tr)
    (hstep : step (passwords cfg) p e = some (p', o)) {hash : String}
    (hhash : hash ∈ (storedBy o).toList) : hash = p.store.row.passwordHash ∨
      ∃ n c password, p'.calls n = some c ∧
        Answered c.log (.hashPassword password) (some hash) ∧ ¬ Unspent c.log := by
  cases step_move hstep with
  | start r => cases hhash
  | change _ => cases hhash
  | @reply n choice c op next res s hc hprogram hanswer =>
    obtain rfl := List.mem_singleton.mp hhash
    obtain hsame | ⟨⟨password, hcomputed⟩, -, hstores⟩ := (h.stored hstep hc).replaced
    · exact .inl hsame
    · refine .inr ⟨n, _, password, by simp only [Pool.set, Function.update_self]; rfl,
        hcomputed.there, ?_⟩
      intro hunspent
      have hno := hunspent _ List.mem_cons_self
      rw [hstores] at hno
      cases hno

theorem Inv.unspent_step (h : Inv cfg first created p tr)
    (hstep : step (passwords cfg) p e = some (p', o)) (hc : p'.calls n = some c)
    (hunspent : Unspent c.log) {password hash : String}
    (hanswer : Answered c.log (.hashPassword password) (some hash)) :
    hash ∉ storedHashes first (tr ++ [(e, o)]) := by
  have hbefore := h.unspent_before hstep hc hunspent hanswer
  rw [storedHashes_snoc, List.mem_append, not_or]
  refine ⟨hbefore, fun hhash => ?_⟩
  rcases h.stored_step hstep hhash with rfl | ⟨m, d, b, hd, hdb, hspent⟩
  · exact hbefore h.shown
  · obtain rfl := h.computed_step hstep hc hd hanswer hdb
    cases hc.symm.trans hd
    exact hspent hunspent

theorem Inv.step (h : Inv cfg first created p tr)
    (hstep : Service.step (passwords cfg) p e = some (p', o)) :
    Inv cfg first created p' (tr ++ [(e, o)]) where
  wf := h.wf.step hstep
  lock := h.lock_step hstep
  obeys := (passwords_spec cfg).step h.obeys hstep
  owner _ _ := h.owner_step hstep
  functional := h.functional_step hstep
  begun t _ _ _ _ := (step_move hstep).once (h.begun t) fun _ _ hanswer _ _ =>
    h.new_transaction hanswer
  computed _ _ _ _ _ _ hc hd hca hda := h.computed_step hstep hc hd hca hda
  told := h.told_step hstep
  current := h.current_step hstep
  shown := h.shown_step hstep
  known := h.known_step hstep
  unspent _ _ _ _ hc hunspent hanswer := h.unspent_step hstep hc hunspent hanswer

/-- What holds at the start of a run holds in every pool that is reached. -/
theorem inv_run {row : UserRow} {password : String}
    (h : Run (Service.step (passwords cfg)) Always (.initial (.created row password)) tr p) :
    Inv cfg row.passwordHash password p tr :=
  h.history (fun _ _ _ _ _ hinv _ hstep => hinv.step hstep) (inv_initial row password)

end Invariant

/-- The stored hash verifies the password that was set last and no other. A transaction that is
committed leaves the hash or stores one of the password that its request has hashed, a rehash leaves
it or replaces it by one of the same password, no other operation touches it, and what takes its
place was never there before. -/
theorem last_password_wins (cfg : Config) (row : UserRow) (password : String) {tr : Trace} {p : Pool}
    (h : Run (Service.step (passwords cfg)) Always (.initial (.created row password)) tr p) :
    (∀ other, p.store.verifies p.store.row.passwordHash other = true ↔
      other = lastPassword password tr) ∧
    ∀ (n : Nat) (choice : Choice) (p' : Pool) (x : Entry operations State)
      (c : Service.Call operations State Request Reply),
      Service.step (passwords cfg) p (.resume n choice) = some (p', .replied n x) →
      p.calls n = some c → Stored p.store p'.store c.log x ∧
        (p'.store.row.passwordHash = p.store.row.passwordHash ∨
          p'.store.row.passwordHash ∉ storedHashes row.passwordHash tr) := by
  have hinv := inv_run h
  refine ⟨?_, ?_⟩
  · intro other
    rw [verifies_iff]
    constructor
    · intro hother
      exact hinv.unique hother hinv.current
    · intro hother
      rw [hother]
      exact hinv.current
  · intro n choice p' x c hstep hc
    exact ⟨hinv.stored hstep hc, hinv.never_back hstep hc⟩

/-! ### A rehash that comes late -/

/-- A login with the first password reads its hash, the password is reset, and then the login
rehashes. -/
def lateRehash : List Event :=
  [.start (.login "first password"), .start (.resetPassword "second password"),
    .resume 0 .done, .resume 0 .done, .resume 0 (.remaining true), .resume 0 (.hash "late"),
    .resume 1 (.hash "second"), .resume 1 .done, .resume 1 .done, .resume 1 .done, .resume 1 .done,
    .resume 1 .done, .resume 1 .done, .resume 1 .done, .resume 1 .done, .resume 1 .done,
    .resume 0 .done]

theorem last_password_wins_lateRehash : ∃ tr p,
    Run (Service.step (passwords ⟨.onlyAscii, fun _ => true⟩)) Always
      (.initial (.created someUser "first password")) tr p ∧
    tr.map Prod.fst = lateRehash ∧ p.store.row.passwordHash = "second" ∧
    ∀ other, p.store.verifies "second" other = true ↔ other = "second password" := by
  obtain ⟨p, os, hexec, hmap, hhash, hlast⟩ : ∃ p os,
      exec (Service.step (passwords ⟨.onlyAscii, fun _ => true⟩)) Always
        (.initial (.created someUser "first password")) lateRehash = some (p, os) ∧
      (lateRehash.zip os).map Prod.fst = lateRehash ∧ p.store.row.passwordHash = "second" ∧
      lastPassword "first password" (lateRehash.zip os) = "second password" :=
    ⟨_, _, rfl, rfl, rfl, rfl⟩
  have hrun := Run.of_exec hexec
  have hwins := (last_password_wins _ someUser "first password" hrun).1
  rw [hhash, hlast] at hwins
  exact ⟨_, p, hrun, hmap, hhash, hwins⟩

end AuthMe.Passwords

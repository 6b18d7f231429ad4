import AuthMe.DataLayer.Writes
import AuthMe.Store.FactorRun

/-!
# The rollback of a security mutation

`mutateAccountSecurity` undoes a mutation that fails by writing back what it has read at its
start. What another request has written to the account in between is lost with it: the security
version goes down, a TOTP step that was used becomes usable again and a deleted account comes
back (`rollback_counterexample`).

While no other request has written to the row since the mutation has read it, and none to the
passkeys since it has listed them, a rollback undoes nothing else (`rollback_law`).
-/

namespace AuthMe.DataLayer

open Service Store
open Transition (Run Always)

abbrev Pool := Service.Pool operations State Request Result

abbrev Call := Service.Call operations State Request Result

abbrev Event := Service.Event Request Choice Instant

abbrev Trace := List (Event × Service.Output operations State)

variable {cfg : Config} {s s' : State} {p p' : Pool} {e : Event}
  {o : Service.Output operations State} {log : Log} {key : UserKey} {part : Part} {u : User}

/-! ## Logs -/

/-- The states of a log are well formed, and lead from one to the next and to the store. -/
def Linked (s : State) : Log → Prop
  | [] => True
  | x :: rest => Wf x.before ∧ (∃ parts, Written x.before x.after parts) ∧
    (∃ parts, Written x.after s parts) ∧ Linked x.before rest

/-- Since the first operation nobody else has written to the part. -/
def Undisturbed (part : Part) (s : State) : Log → Prop
  | [] => True
  | x :: rest => s.writes.count part = x.after.writes.count part ∧ Undisturbed part x.before rest

theorem Linked.mono {parts : List Part} (h : Linked s log) (hw : Written s s' parts) :
    Linked s' log := by
  cases log with
  | nil => trivial
  | cons x rest =>
    obtain ⟨hwf, hown, ⟨parts', hw'⟩, hrest⟩ := h
    exact ⟨hwf, hown, ⟨_, hw'.trans hw⟩, hrest⟩

theorem Linked.mem (h : Linked s log) {x : Entry operations State} (hx : x ∈ log) :
    Wf x.before ∧ ∀ key ∈ x.before.issued, key ∈ s.issued := by
  induction log generalizing s with
  | nil => cases hx
  | cons y rest ih =>
    obtain ⟨hwf, ⟨_, hown⟩, ⟨_, hw⟩, hrest⟩ := h
    have hissued : ∀ key ∈ y.before.issued, key ∈ s.issued := fun key hkey =>
      hw.issued key (hown.issued key hkey)
    rcases List.mem_cons.mp hx with rfl | hx
    · exact ⟨hwf, hissued⟩
    · obtain ⟨hwf', hmem⟩ := ih hrest hx
      exact ⟨hwf', fun key hkey => hissued key (hmem key hkey)⟩

/-- What is undisturbed was so before the last step, and the step has not written to it. -/
theorem Undisturbed.back {parts : List Part} (hl : Linked s log) (hw : Written s s' parts)
    (h : Undisturbed part s' log) (hne : log ≠ []) : Undisturbed part s log ∧ part ∉ parts := by
  cases log with
  | nil => exact absurd rfl hne
  | cons x rest =>
    obtain ⟨-, -, ⟨_, hw'⟩, -⟩ := hl
    have hle := hw'.count_le part
    have hle' := hw.count_le part
    have hcount := h.1
    exact ⟨⟨by omega, h.2⟩, hw.not_mem_of_count (by omega)⟩

/-! ## What a log says of the account -/

theorem answer_find {user : Option User} {before after : State}
    (h : Answers (layer cfg)
      (⟨.store (.findUserById key), user, before, after⟩ : Entry operations State)) :
    user = before.users.get? key ∧ after = before := by
  obtain ⟨choice, h⟩ := h
  have hpair : some (before.users.get? key, before) = some (user, after) := h
  obtain ⟨huser, hafter⟩ := Prod.mk.inj (Option.some.inj hpair)
  exact ⟨huser.symm, hafter.symm⟩

/-- The account that was read first has its key, which has been issued. -/
theorem ReadFirst.issued (h : ReadFirst key u log) (hl : Linked s log)
    (ha : ∀ x ∈ log, Answers (layer cfg) x) : State.keyOf u = key ∧ key ∈ s.issued := by
  obtain ⟨before, after, hlast⟩ := h
  have hmem := List.mem_of_getLast? hlast
  obtain ⟨hwf, hissued⟩ := hl.mem hmem
  obtain ⟨hrow, -⟩ := answer_find (ha _ hmem)
  obtain ⟨hkey, hin⟩ := hwf.users key u hrow.symm
  exact ⟨hkey, hissued key hin⟩

theorem Holds.issued (h : Holds key u log) (hl : Linked s log)
    (ha : ∀ x ∈ log, Answers (layer cfg) x) : State.keyOf u = key ∧ key ∈ s.issued := by
  obtain ⟨before, after, hmem⟩ := h.deleted
  obtain ⟨hwf, hissued⟩ := hl.mem hmem
  obtain ⟨choice, hanswer⟩ := ha _ hmem
  have hrow : before.users.get? key = some u := by
    have hpair : some (before.deleteUser key) = some (some u, after) := hanswer
    unfold State.deleteUser at hpair
    split at hpair
    · cases hpair
    · rename_i hu
      cases hpair
      exact hu
  obtain ⟨hkey, hin⟩ := hwf.users key u hrow
  exact ⟨hkey, hissued key hin⟩

/-- While the row is undisturbed, what `mutate` does leaves the account in place and its security
version as it was read. -/
theorem ReadFirst.version (h : ReadFirst key u log) (hl : Linked s log)
    (ha : ∀ x ∈ log, Answers (layer cfg) x) (hstore : StoreOnly log)
    (hquiet : Undisturbed (.row key) s log) :
    ∃ u', s.users.get? key = some u' ∧ u'.securityVersion = u.securityVersion := by
  induction log generalizing s with
  | nil =>
    obtain ⟨_, _, hlast⟩ := h
    cases hlast
  | cons x rest ih =>
    obtain ⟨hwf, -, ⟨parts, hw⟩, hrest⟩ := hl
    have hafter : s.users.get? key = x.after.users.get? key :=
      hw.row key (hw.not_mem_of_count hquiet.1)
    rw [hafter]
    cases rest with
    | nil =>
      obtain ⟨before, after, hlast⟩ := h
      cases hlast
      obtain ⟨hrow, hsame⟩ := answer_find (ha _ List.mem_cons_self)
      exact ⟨u, by rw [hsame, ← hrow], rfl⟩
    | cons y rest =>
      have hread : ReadFirst key u (y :: rest) := by
        obtain ⟨before, after, hlast⟩ := h
        exact ⟨before, after, by simpa using hlast⟩
      obtain ⟨u', hu', hversion⟩ := ih hread hrest (fun z hz => ha z (List.mem_cons_of_mem _ hz))
        (fun z hz => hstore z (List.mem_cons_of_mem _ hz)) hquiet.2
      obtain ⟨choice, hanswer⟩ := ha x List.mem_cons_self
      have hop := hstore x List.mem_cons_self
      obtain ⟨op, res, before, after⟩ := x
      have hrow : RowStep cfg key before after op res := answer_row hanswer key
      cases hrow with
      | same hsame => exact ⟨u', hsame.trans hu', hversion⟩
      | row hu happly hu'' =>
        cases hu.symm.trans hu'
        exact ⟨_, hu'', (apply_keeps happly).2.trans hversion⟩
      | bumped | restored | deleted | created | recreated => cases hop

/-! ## Undisturbed rollbacks -/

instance decidableUndisturbed (part : Part) : (s : State) → (log : Log) →
    Decidable (Undisturbed part s log)
  | _, [] => .isTrue trivial
  | s, x :: rest =>
    have := decidableUndisturbed part x.before rest
    inferInstanceAs (Decidable (s.writes.count part = x.after.writes.count part ∧ _))

def Op.isRestore : Op → Bool
  | .restoreUser _ => true
  | _ => false

/-- The row has been written back. -/
def WritingBack (log : Log) : Prop := ∃ x ∈ log, x.op.isRestore = true

/-- The condition on the row, when the operation writes it back. -/
def RestoresAlone (cfg : Config) (key : UserKey) (s : State) (log : Log) : Op → Prop
  | .restoreUser u => Undisturbed (.row key) s log ∧ normalizeUser cfg u = u
  | _ => True

instance (cfg : Config) (key : UserKey) (s : State) (log : Log) : (op : Op) →
    Decidable (RestoresAlone cfg key s log op)
  | .restoreUser u =>
    inferInstanceAs (Decidable (Undisturbed (.row key) s log ∧ normalizeUser cfg u = u))
  | .store _ | .bumpSecurityVersion _ | .deleteUser _ | .createUser _ | .recreateUser _
  | .findAdminGrant _ | .restoreAdminGrant _ _ | .revokeMemoryAccount _ => .isTrue trivial

/-- The condition on the step of a call. -/
def StepsAlone (cfg : Config) (s : State) : Option Call → Prop
  | some ⟨.mutateAccountSecurity key _, _, log, .await op _⟩ =>
    RestoresAlone cfg key s log op ∧
      (WritingBack log → Undisturbed (.passkeys key) s log.dropLast)
  | _ => True

instance (cfg : Config) (s : State) : (c : Option Call) → Decidable (StepsAlone cfg s c)
  | none => .isTrue trivial
  | some ⟨.mutateAccountSecurity key _, _, log, .await op _⟩ =>
    inferInstanceAs (Decidable (RestoresAlone cfg key s log op ∧
      ((∃ x ∈ log, x.op.isRestore = true) → Undisturbed (.passkeys key) s log.dropLast)))
  | some ⟨.mutateAccountSecurity _ _, _, _, .done _⟩ => .isTrue trivial
  | some ⟨.deleteAccount _ _, _, _, _⟩ => .isTrue trivial
  | some ⟨.createUser _, _, _, _⟩ => .isTrue trivial
  | some ⟨.methods _, _, _, _⟩ => .isTrue trivial

/-- When a failing mutation writes back the account, no other request has written to the row since
the mutation has read it, and the row is as `normalizeUser` leaves it; while it writes back the
passkeys, no other request has written to them since the mutation has listed them. -/
def RollsBackAlone (cfg : Config) (p : Pool) : Event → Prop
  | .resume n _ => StepsAlone cfg p.store (p.calls n)
  | _ => True

instance (cfg : Config) (p : Pool) : (e : Event) → Decidable (RollsBackAlone cfg p e)
  | .resume n _ => inferInstanceAs (Decidable (StepsAlone cfg p.store (p.calls n)))
  | .start _ => .isTrue trivial
  | .change _ => .isTrue trivial

theorem RollsBackAlone.resume {n : Nat} {choice : Choice} {c : Call}
    {mutate : Program storeMethods Outcome} {op : Op} {next : op.Res → Program operations Result}
    (h : RollsBackAlone cfg p (.resume n choice)) (hc : p.calls n = some c)
    (hrequest : c.request = .mutateAccountSecurity key mutate)
    (hprogram : c.program = .await op next) :
    RestoresAlone cfg key p.store c.log op ∧
      (WritingBack c.log → Undisturbed (.passkeys key) p.store c.log.dropLast) := by
  obtain ⟨request, begun, log, program⟩ := c
  cases hrequest
  cases hprogram
  simpa only [RollsBackAlone, StepsAlone, hc] using h

/-! ## What holds of every state -/

/-- A `deleteAccount` that has deleted the user, and neither put it back nor come to its end. -/
def Deleting (p : Pool) (n : Nat) (key : UserKey) (u : User) : Prop :=
  ∃ c audited, p.calls n = some c ∧ c.request = .deleteAccount key audited ∧ Holds key u c.log

structure Inv (cfg : Config) (p : Pool) : Prop where
  wf : Wf p.store
  obeys : p.Obeys (layer cfg) Performs Returns
  answers : ∀ n c, p.calls n = some c → ∀ x ∈ c.log, Answers (layer cfg) x
  linked : ∀ n c, p.calls n = some c → Linked p.store c.log
  deleting : ∀ n key u, Deleting p n key u →
    p.store.users.get? key = none ∧ ∀ n' u', Deleting p n' key u' → n' = n

namespace Inv

theorem performs (hp : Inv cfg p) {n : Nat} {c : Call} {op : Op}
    {next : op.Res → Program operations Result} (hc : p.calls n = some c)
    (hprogram : c.program = .await op next) : Performs c.request c.log op := by
  have hobeys := hp.obeys n c hc
  rw [hprogram] at hobeys
  exact hobeys.1

/-- A user that is put back has an identifier that was issued, and the key of the call. -/
theorem restored (hp : Inv cfg p) {n : Nat} {c : Call} {u : User}
    {next : Op.Res (.restoreUser u) → Program operations Result} (hc : p.calls n = some c)
    (hprogram : c.program = .await (.restoreUser u) next) :
    ∃ key mutate, c.request = .mutateAccountSecurity key mutate ∧ StoreOnly c.log ∧
      ReadFirst key u c.log ∧ State.keyOf u = key ∧ key ∈ p.store.issued := by
  obtain ⟨hstore, key, mutate, hrequest, hread⟩ := hp.performs hc hprogram
  obtain ⟨hkey, hissued⟩ := hread.issued (hp.linked n c hc) (hp.answers n c hc)
  exact ⟨key, mutate, hrequest, hstore, hread, hkey, hissued⟩

theorem recreated (hp : Inv cfg p) {n : Nat} {c : Call} {u : User}
    {next : Op.Res (.recreateUser u) → Program operations Result} (hc : p.calls n = some c)
    (hprogram : c.program = .await (.recreateUser u) next) :
    Deleting p n (State.keyOf u) u ∧ State.keyOf u ∈ p.store.issued := by
  obtain ⟨key, audited, hrequest, hholds⟩ := hp.performs hc hprogram
  obtain ⟨hkey, hissued⟩ := hholds.issued (hp.linked n c hc) (hp.answers n c hc)
  subst hkey
  exact ⟨⟨c, audited, hc, hrequest, hholds⟩, hissued⟩

/-- What a step writes. -/
theorem written (hp : Inv cfg p) (h : Service.step (layer cfg) p e = some (p', o)) :
    ∃ parts, Written p.store p'.store parts := by
  cases step_move h with
  | start r => exact ⟨[], .refl _⟩
  | reply _ _ hanswer => exact answer_written hp.wf hanswer
  | change hchange =>
    simp only [layer, elapse] at hchange
    split at hchange
    · cases hchange
      exact ⟨[], ⟨rfl, fun _ _ => rfl, fun _ _ _ => rfl, fun _ _ h => h, fun _ h => h⟩⟩
    · cases hchange

theorem wf_step (hp : Inv cfg p) (h : Service.step (layer cfg) p e = some (p', o)) :
    Wf p'.store := by
  cases step_move h with
  | start r => exact hp.wf
  | @reply n choice c op next res s hc hprogram hanswer =>
    refine answer_wf hp.wf hanswer ?_
    rintro u (rfl | rfl)
    · obtain ⟨key, _, _, _, _, hkey, hissued⟩ := hp.restored hc hprogram
      exact hkey ▸ hissued
    · exact (hp.recreated hc hprogram).2
  | change hchange =>
    simp only [layer, elapse] at hchange
    split at hchange
    · cases hchange
      exact ⟨hp.wf.users, hp.wf.credentials⟩
    · cases hchange

theorem linked_step (hp : Inv cfg p) (h : Service.step (layer cfg) p e = some (p', o)) {n : Nat}
    {c : Call} (hc : p'.calls n = some c) : Linked p'.store c.log := by
  obtain ⟨parts, hw⟩ := hp.written h
  cases (step_move h).became hc with
  | start _ _ hc => simp [hc, Linked]
  | reply hold _ _ hc =>
    rw [hc]
    exact ⟨hp.wf, ⟨parts, hw⟩, ⟨[], .refl _⟩, hp.linked n _ hold⟩
  | same hold => exact (hp.linked n c hold).mono hw

theorem answers_step (hp : Inv cfg p) (h : Service.step (layer cfg) p e = some (p', o)) {n : Nat}
    {c : Call} (hc : p'.calls n = some c) : ∀ x ∈ c.log, Answers (layer cfg) x := by
  cases (step_move h).became hc with
  | start _ _ hc => simp [hc]
  | reply hold _ hanswer hc =>
    rw [hc]
    intro x hx
    rcases List.mem_cons.mp hx with rfl | hx
    · exact hanswer
    · exact hp.answers n _ hold x hx
  | same hold => exact hp.answers n c hold

/-- A row comes into being only under a new key, or in the hands of the call that has deleted
it. -/
theorem absent_step (hp : Inv cfg p) (hG : RollsBackAlone cfg p e)
    (h : Service.step (layer cfg) p e = some (p', o)) {n : Nat} {key : UserKey} {u : User}
    (hheld : Deleting p n key u) (hheld' : Deleting p' n key u) :
    p'.store.users.get? key = none := by
  obtain ⟨hrow, honly⟩ := hp.deleting n key u hheld
  obtain ⟨c, audited, hc, hrequest, hholds⟩ := hheld
  have hissued := (hholds.issued (hp.linked n c hc) (hp.answers n c hc)).2
  cases step_move h with
  | start r => exact hrow
  | @reply k choice c' op next res s hc' hprogram hanswer =>
    cases answer_row hanswer key with
    | same hsame => exact hsame.trans hrow
    | row hu | bumped hu | deleted hu =>
      rw [hrow] at hu
      cases hu
    | @restored u' hkey' hu' =>
      -- the row that was read is still there
      obtain ⟨key', mutate, hrequest', hstore, hread, hkey, -⟩ := hp.restored hc' hprogram
      cases hkey'.symm.trans hkey
      have hquiet := (hG.resume hc' hrequest' hprogram).1.1
      obtain ⟨u'', hu'', -⟩ := hread.version (hp.linked k c' hc') (hp.answers k c' hc') hstore hquiet
      rw [hrow] at hu''
      cases hu''
    | created hfresh => exact absurd hissued hfresh
    | @recreated u' hkey' =>
      -- the call is the one that holds the user, and it holds it no longer
      have hk : k = n := honly k u' (hkey' ▸ (hp.recreated hc' hprogram).1)
      subst hk
      cases hc.symm.trans hc'
      obtain ⟨c₁, _, hc₁, -, hholds₁⟩ := hheld'
      have hnew : c₁ = c.reply ⟨.recreateUser u', none, p.store, s⟩ (next none) := by
        simpa [Pool.set] using hc₁.symm
      subst hnew
      have := hholds₁.pending _ List.mem_cons_self
      cases this
  | change hchange =>
    simp only [layer, elapse] at hchange
    split at hchange
    · cases hchange
      exact hrow
    · cases hchange

/-- A call that holds a user has held it before the step, or has deleted it with the step. -/
theorem deleting_became (h : Service.step (layer cfg) p e = some (p', o)) {n : Nat}
    {key : UserKey} {u : User} (hheld : Deleting p' n key u) :
    Deleting p n key u ∨ p.store.users.get? key = some u ∧ p'.store.users.get? key = none ∧
      ∃ choice, e = .resume n choice := by
  obtain ⟨c, audited, hc, hrequest, hholds⟩ := hheld
  cases (step_move h).became hc with
  | start _ _ hc =>
    obtain ⟨_, _, hmem⟩ := hholds.deleted
    rw [hc] at hmem
    cases hmem
  | same hold => exact .inl ⟨c, audited, hold, hrequest, hholds⟩
  | @reply old op next res hold hprogram hanswer hc he =>
    subst hc
    have hpending : ∀ x ∈ old.log, x.op.endsDeletion = false := fun x hx =>
      hholds.pending x (List.mem_cons_of_mem _ hx)
    obtain ⟨before, after, hmem⟩ := hholds.deleted
    rcases List.mem_cons.mp hmem with heq | hmem
    · cases heq
      obtain ⟨choice, hanswer⟩ := hanswer
      have hpair : some (p.store.deleteUser key) = some (some u, p'.store) := hanswer
      unfold State.deleteUser at hpair
      split at hpair
      · cases hpair
      · rename_i hu
        simp only [Option.some.injEq, Prod.mk.injEq] at hpair
        obtain ⟨rfl, hstore⟩ := hpair
        rw [← hstore]
        exact .inr ⟨hu, p.store.users.get?_erase_self key, he⟩
    · exact .inl ⟨old, audited, hold, hrequest, ⟨before, after, hmem⟩, hpending⟩

theorem step (hp : Inv cfg p) (hG : RollsBackAlone cfg p e)
    (h : Service.step (layer cfg) p e = some (p', o)) : Inv cfg p' where
  wf := hp.wf_step h
  obeys := (layer_spec cfg).step hp.obeys h
  answers _ _ hc := hp.answers_step h hc
  linked _ _ hc := hp.linked_step h hc
  deleting n key u hheld := by
    rcases deleting_became h hheld with hold | ⟨hrow, hgone, choice, he⟩
    · refine ⟨hp.absent_step hG h hold hheld, fun n' u' hheld' => ?_⟩
      rcases deleting_became h hheld' with hold' | ⟨hrow', -, -⟩
      · exact (hp.deleting n key u hold).2 n' u' hold'
      · rw [(hp.deleting n key u hold).1] at hrow'
        cases hrow'
    · refine ⟨hgone, fun n' u' hheld' => ?_⟩
      rcases deleting_became h hheld' with hold' | ⟨-, -, choice', he'⟩
      · rw [(hp.deleting n' key u' hold').1] at hrow
        cases hrow
      · cases he.symm.trans he'
        rfl

end Inv

theorem inv_run {clock : Instant} {tr : Trace}
    (h : Run (Service.step (layer cfg)) (RollsBackAlone cfg) (.initial (.empty clock)) tr p) :
    Inv cfg p := by
  refine h.invariant (fun _ _ _ _ hp hG hstep => hp.step hG hstep) ?_
  refine ⟨wf_empty clock, fun n c hc => ?_, fun n c hc => ?_, fun n c hc => ?_, ?_⟩
  · cases hc
  · cases hc
  · cases hc
  · rintro n key u ⟨c, _, hc, -⟩
    cases hc

/-! ## What a rollback does not undo -/

/-- Whatever can become the row of the account has the property `K`: the row, what a mutation in
flight would write back, and what a failing deletion would put back. The rollback of the call `k`
is left out. -/
structure Kept (K : User → Prop) (key : UserKey) (k : Option Nat) (p : Pool) : Prop where
  issued : key ∈ p.store.issued
  row : ∀ u, p.store.users.get? key = some u → K u
  read : ∀ n c mutate u, k ≠ some n → p.calls n = some c →
    c.request = .mutateAccountSecurity key mutate → StoreOnly c.log → ReadFirst key u c.log →
    Undisturbed (.row key) p.store c.log → K u
  deleting : ∀ n u, Deleting p n key u → K u

/-- A method writes the row of the account, and the result has not the property. -/
def Breaks (cfg : Config) (K : User → Prop) (key : UserKey) (p : Pool) (e : Event) : Prop :=
  ∃ n choice c op next u u', e = .resume n choice ∧ p.calls n = some c ∧
    c.program = .await (.store (.row key op)) next ∧ p.store.users.get? key = some u ∧
    op.apply cfg p.store key u = some u' ∧ K u ∧ ¬ K u'

/-- The call writes back what it has read. -/
def RollsBack (k : Option Nat) (p : Pool) (e : Event) : Prop :=
  ∃ n choice c u next, k = some n ∧ e = .resume n choice ∧ p.calls n = some c ∧
    c.program = .await (.restoreUser u) next

namespace Kept

variable {K : User → Prop} {k : Option Nat}

theorem row_step (hK : Kept K key k p) (hp : Inv cfg p) (hG : RollsBackAlone cfg p e)
    (hbreaks : ¬ Breaks cfg K key p e) (hrolls : ¬ RollsBack k p e)
    (hbump : ∀ u, K u → K u.bumpSecurityVersion) (hnormal : ∀ u, K u → K (normalizeUser cfg u))
    (h : Service.step (layer cfg) p e = some (p', o)) {u : User}
    (hu : p'.store.users.get? key = some u) : K u := by
  cases step_move h with
  | start r => exact hK.row u hu
  | @reply n choice c op next res s hc hprogram hanswer =>
    cases answer_row hanswer key with
    | same hsame => exact hK.row u (hsame.symm.trans hu)
    | row hold happly hnew =>
      cases hnew.symm.trans hu
      by_contra hnot
      exact hbreaks ⟨n, choice, c, _, next, _, u, rfl, hc, hprogram, hold, happly, hK.row _ hold, hnot⟩
    | bumped hold hnew =>
      cases hnew.symm.trans hu
      exact hbump _ (hK.row _ hold)
    | @restored u₀ hkey hnew =>
      cases hnew.symm.trans hu
      obtain ⟨key', mutate, hrequest, hstore, hread, hkey', -⟩ := hp.restored hc hprogram
      cases hkey.symm.trans hkey'
      have hne : k ≠ some n := fun heq => hrolls ⟨n, choice, c, u₀, next, heq, rfl, hc, hprogram⟩
      have hquiet := (hG.resume hc hrequest hprogram).1.1
      exact hnormal _ (hK.read n c mutate u₀ hne hc hrequest hstore hread hquiet)
    | deleted _ hnew => cases hnew.symm.trans hu
    | created hfresh => exact absurd hK.issued hfresh
    | @recreated u₀ hkey _ hnew =>
      cases hnew.symm.trans hu
      exact hnormal _ (hK.deleting n u₀ (hkey ▸ (hp.recreated hc hprogram).1))
  | change hchange =>
    simp only [layer, elapse] at hchange
    split at hchange
    · cases hchange
      exact hK.row u hu
    · cases hchange

theorem step (hK : Kept K key k p) (hp : Inv cfg p) (hG : RollsBackAlone cfg p e)
    (hbreaks : ¬ Breaks cfg K key p e) (hrolls : ¬ RollsBack k p e)
    (hbump : ∀ u, K u → K u.bumpSecurityVersion) (hnormal : ∀ u, K u → K (normalizeUser cfg u))
    (h : Service.step (layer cfg) p e = some (p', o)) : Kept K key k p' := by
  obtain ⟨parts, hw⟩ := hp.written h
  refine ⟨hw.issued key hK.issued, fun u hu => hK.row_step hp hG hbreaks hrolls hbump hnormal h hu,
    ?_, fun n u hheld => ?_⟩
  · intro n c mutate u hne hc hrequest hstore hread hquiet
    cases (step_move h).became hc with
    | start _ _ hc =>
      obtain ⟨_, _, hlast⟩ := hread
      simp [hc] at hlast
    | same hold =>
      have hlog : c.log ≠ [] := by
        obtain ⟨_, _, hlast⟩ := hread
        intro hnil
        simp [hnil] at hlast
      have hback := (hquiet.back (hp.linked n c hold) hw hlog).1
      exact hK.read n c mutate u hne hold hrequest hstore hread hback
    | @reply old op next res hold hprogram hanswer hnew =>
      subst hnew
      have hstore' : StoreOnly old.log := fun x hx => hstore x (List.mem_cons_of_mem _ hx)
      by_cases hlog : old.log = []
      · -- the call has just read the row
        obtain ⟨before, after, hlast⟩ := hread
        simp only [Call.reply, hlog, List.getLast?_singleton, Option.some.injEq] at hlast
        cases hlast
        exact hK.row u (answer_find hanswer).1.symm
      · have hread' : ReadFirst key u old.log := by
          obtain ⟨before, after, hlast⟩ := hread
          refine ⟨before, after, ?_⟩
          rwa [Call.reply, List.getLast?_cons_of_ne_nil hlog] at hlast
        exact hK.read n old mutate u hne hold hrequest hstore' hread' hquiet.2
  · rcases Inv.deleting_became h hheld with hold | ⟨hrow, -, -⟩
    · exact hK.deleting n u hold
    · exact hK.row u hrow

end Kept

end AuthMe.DataLayer

import AuthMe.Login.Spec

/-!
# Random values in a run

The runs of the login routes start from a store without challenges, states and markers, with
any accounts and passkeys. A random value is issued once, so it names the call that has drawn
it (`random_unique`), and with it what that call has saved under it.
-/

namespace AuthMe.Login

open Service Store
open Transition (Run Always)

abbrev Pool := Service.Pool operations State Request Reply

abbrev Call := Service.Call operations State Request Reply

abbrev Trace := List (Event Request Choice Change × Output operations State)

variable {cfg : Config} {s s' : State} {p p' m : Pool} {tr : Trace}

/-- A store without challenges, states and markers, whose random values are still to come. -/
def State.initial (clock : Instant) (users : Users)
    (credentials : OrderedMap (String × String) Credential) : State :=
  ⟨clock, ⟨users, []⟩, ⟨credentials, .empty⟩, ⟨.empty, .empty⟩, []⟩

/-! ## Random values -/

/-- The issued values stay issued. -/
theorem answer_issued {choice : Choice} {op : Op} {res : op.Res}
    (h : answer cfg s choice op = some (res, s')) : ∀ v ∈ s.issued, v ∈ s'.issued := by
  intro v hv
  cases answer_cases h with
  | random hfresh => exact List.mem_cons_of_mem _ hv
  | createChallenge hfresh => exact List.mem_cons_of_mem _ hv
  | _ => exact hv

theorem change_createChallenge {input : ChallengeInput} {id : String}
    (h : change cfg s (.createChallenge input id) = some s') :
    id ∉ s.issued ∧ s' = { s with issued := id :: s.issued }.addChallenge input id := by
  obtain ⟨r, hr, rfl⟩ := Option.map_eq_some_iff.mp h
  obtain ⟨hfresh, hs⟩ := draw_eq_some hr
  simp only [State.draw] at hr
  split at hr <;> cases hr
  exact ⟨hfresh, by rw [hs]⟩

theorem change_issued {e : Change} (h : change cfg s e = some s') :
    ∀ v ∈ s.issued, v ∈ s'.issued := by
  intro v hv
  cases e with
  | createChallenge input id =>
    obtain ⟨-, rfl⟩ := change_createChallenge h
    exact List.mem_cons_of_mem _ hv
  | elapse clock =>
    simp only [change] at h
    split at h <;> cases h
    exact hv
  | createUser u =>
    simp only [change] at h
    split at h <;> cases h
    exact hv
  | createCredential c =>
    simp only [change] at h
    split at h <;> cases h
    exact hv
  | _ => cases h; exact hv

theorem issued_step {e : Event Request Choice Change} {o : Output operations State}
    (h : Service.step (routes cfg) p e = some (p', o)) :
    ∀ v ∈ p.store.issued, v ∈ p'.store.issued := by
  cases step_move h with
  | start r => exact fun _ h => h
  | reply _ _ hanswer => exact answer_issued hanswer
  | change hchange => exact change_issued hchange

/-- A random value names the call that has drawn it. -/
structure Drawn (p : Pool) : Prop where
  issued : ∀ {n call v}, p.calls n = some call → Answered (I := operations) call.log .random v →
    v ∈ p.store.issued
  unique : ∀ {n m call call' v}, p.calls n = some call → p.calls m = some call' →
    Answered (I := operations) call.log .random v →
    Answered (I := operations) call'.log .random v → n = m

theorem Drawn.step (hp : Drawn p) {e : Event Request Choice Change} {o : Output operations State}
    (h : Service.step (routes cfg) p e = some (p', o)) : Drawn p' := by
  -- an answer is an old one, or it is that of the step and has not been issued before
  have hcases : ∀ {n call v}, p'.calls n = some call →
      Answered (I := operations) call.log .random v →
      (∃ old, p.calls n = some old ∧ Answered (I := operations) old.log .random v) ∨
        (∃ choice, e = .resume n choice) ∧ v ∉ p.store.issued ∧ v ∈ p'.store.issued := by
    intro n call v hcall ha
    rcases (step_move h).answered hcall ha with hold | ⟨old, choice, next, he, -, -, hanswer⟩
    · exact .inl hold
    · refine .inr ⟨⟨choice, he⟩, ?_⟩
      change answer cfg p.store choice .random = _ at hanswer
      generalize p'.store = s' at hanswer ⊢
      cases answer_cases hanswer with
      | random hfresh => exact ⟨hfresh, List.mem_cons_self⟩
  constructor
  case issued =>
    intro n call v hcall ha
    rcases hcases hcall ha with ⟨old, hold, ha⟩ | ⟨-, -, hv⟩
    · exact issued_step h v (hp.issued hold ha)
    · exact hv
  case unique =>
    intro n m call call' v hcall hcall' ha ha'
    rcases hcases hcall ha with ⟨old, hold, ha⟩ | ⟨⟨choice, he⟩, hv, -⟩ <;>
      rcases hcases hcall' ha' with ⟨old', hold', ha'⟩ | ⟨⟨choice', he'⟩, hv', -⟩
    · exact hp.unique hold hold' ha ha'
    · exact absurd (hp.issued hold ha) hv'
    · exact absurd (hp.issued hold' ha') hv
    · cases he.symm.trans he'
      rfl

theorem random_unique {s₀ : State} (h : Run (Service.step (routes cfg)) Always (.initial s₀) tr p) :
    Drawn p :=
  h.invariant (fun _ _ _ _ hp _ hstep => hp.step hstep) ⟨nofun, nofun⟩

/-! ## What is performed once -/

/-- An operation that is performed only before any other of its kind is performed once. -/
theorem countP_le_one {kind : Op → Bool} {log : Log}
    (h : ∀ l x l', log = l ++ x :: l' → kind x.op = true → Free kind l') :
    log.countP (fun x => kind x.op) ≤ 1 := by
  induction log with
  | nil => simp
  | cons x log ih =>
    by_cases hx : kind x.op = true
    · have hfree : Free kind log := h [] x log rfl hx
      have hzero : log.countP (fun x => kind x.op) = 0 :=
        List.countP_eq_zero.mpr fun y hy => by simp [hfree y hy]
      simp [hx, hzero]
    · rw [List.countP_cons_of_neg (p := fun x : Entry operations State => kind x.op) hx]
      exact ih fun l y l' hlog => h (x :: l) y l' (by rw [hlog]; rfl)

/-- An entry of such a kind is the only one. -/
theorem eq_of_countP_le_one {kind : Op → Bool} {log : Log}
    (h : log.countP (fun x => kind x.op) ≤ 1) {x y : Entry operations State} (hx : x ∈ log)
    (hy : y ∈ log) (hkx : kind x.op = true) (hky : kind y.op = true) : x = y := by
  induction log with
  | nil => cases hx
  | cons z log ih =>
    by_cases hz : kind z.op = true
    · rw [List.countP_cons_of_pos (p := fun x : Entry operations State => kind x.op) hz] at h
      have hnone : ∀ w ∈ log, kind w.op ≠ true := by
        intro w hw hkw
        have hpos := List.countP_pos_iff (p := fun x => kind x.op) |>.mpr ⟨w, hw, hkw⟩
        omega
      rcases List.mem_cons.mp hx with rfl | hx
      · rcases List.mem_cons.mp hy with rfl | hy
        · rfl
        · exact absurd hky (hnone y hy)
      · exact absurd hkx (hnone x hx)
    · rw [List.countP_cons_of_neg (p := fun x : Entry operations State => kind x.op) hz] at h
      rcases List.mem_cons.mp hx with rfl | hx
      · exact absurd hkx hz
      rcases List.mem_cons.mp hy with rfl | hy
      · exact absurd hky hz
      exact ih h hx hy

/-- A call saves one state or RelayState. -/
theorem saves_once {s₀ : State} (h : Run (Service.step (routes cfg)) Always (.initial s₀) tr p)
    {n : Nat} {call : Call} (hcall : p.calls n = some call) :
    call.log.countP (fun x => Op.isSave x.op) ≤ 1 := by
  refine countP_le_one fun l x l' hlog hkind => ?_
  have hperformed := (routes_spec cfg).performed h hcall hlog
  obtain ⟨op, res, before, after⟩ := x
  cases op with
  | artifact op =>
    cases op with
    | saveState => exact hperformed.1
    | putIfAbsent key => exact (hperformed (of_decide_eq_true hkind)).1
    | _ => cases hkind
  | _ => cases hkind

/-! ## A store -/

/-- A user and a passkey of that user. -/
def someUser : User where
  realm := "master"
  id := "ada"
  username := "ada"
  email := "ada@example.com"
  passwordHash := "secret"

def someCredential : Credential where
  realm := "master"
  userId := "ada"
  id := "key"
  userHandle := "handle"
  publicKey := "public"
  counter := ⟨7, by decide⟩

def someState : State :=
  .initial ⟨2000, by decide⟩ (OrderedMap.empty.set ("master", "ada") someUser)
    (OrderedMap.empty.set ("master", "key") someCredential)

end AuthMe.Login

import AuthMe.Service.Program
import AuthMe.Transition.Run
import Mathlib.Logic.Function.Basic

/-!
# Services

A service answers requests. A request is served by a call, which runs the request's
program; the calls of a service share one store, and between two operations of a call any
number of operations of other calls and of changes from outside can happen. The machine
of a service is `Service.step`; its states are pools of calls. A call keeps the store that
it found at its start and the log of what it has done, also when it has returned.

Two rules carry what is known of single programs over to runs of the service:

* `Spec.finished`, `Spec.performs`: what the program of a request obeys holds of every
  call of a run.
* `Run.stable`: an assertion about the store and the log of a call that the operations of
  the call establish and nobody else breaks.

`Run.entry` finds the step of a run at which an entry of a log was made.
-/

/-- Programs for the requests, answers for the operations, and changes from outside. An
answer may depend on a choice, and so is a function of the store and the choice. -/
structure Service (I : Service.Interface) (S Q A C E : Type) where
  program : Q → Service.Program I A
  answer : S → C → (op : I.Op) → Option (I.Res op × S)
  change : S → E → Option S

namespace Service

open Transition (Run)

structure Call (I : Interface) (S Q A : Type) where
  request : Q
  begun : S
  log : List (Entry I S)
  program : Program I A

structure Pool (I : Interface) (S Q A : Type) where
  store : S
  calls : Nat → Option (Call I S Q A)
  next : Nat

inductive Event (Q C E : Type)
  | start (request : Q)
  | resume (call : Nat) (choice : C)
  | change (e : E)
  deriving DecidableEq

inductive Output (I : Interface) (S : Type)
  | started (call : Nat)
  | replied (call : Nat) (entry : Entry I S)
  | changed

variable {I : Interface} {S Q A C E : Type} {V : Service I S Q A C E}
  {p p' m : Pool I S Q A} {e : Event Q C E} {o : Output I S}
  {tr : List (Event Q C E × Output I S)} {G : Pool I S Q A → Event Q C E → Prop}

/-- No call has been made. -/
def Pool.initial (s : S) : Pool I S Q A := ⟨s, fun _ => none, 0⟩

def Pool.set (p : Pool I S Q A) (n : Nat) (c : Call I S Q A) : Pool I S Q A :=
  { p with calls := Function.update p.calls n (some c) }

/-- The call after an answer. -/
def Call.reply (c : Call I S Q A) (entry : Entry I S) (next : Program I A) : Call I S Q A :=
  { c with log := entry :: c.log, program := next }

/-- The entry is an answer of the service. -/
def Answers (V : Service I S Q A C E) (entry : Entry I S) : Prop :=
  ∃ c, V.answer entry.before c entry.op = some (entry.res, entry.after)

/-- One step of a service: a request comes in, an operation of a call is performed, or the
store is changed from outside. -/
def step (V : Service I S Q A C E) (p : Pool I S Q A) :
    Event Q C E → Option (Pool I S Q A × Output I S)
  | .start r =>
    some ({ p.set p.next ⟨r, p.store, [], V.program r⟩ with next := p.next + 1 }, .started p.next)
  | .resume n choice =>
    match p.calls n with
    | none => none
    | some c =>
      match c.program with
      | .done _ => none
      | .await op next =>
        match V.answer p.store choice op with
        | none => none
        | some (res, s) =>
          let entry : Entry I S := ⟨op, res, p.store, s⟩
          some ({ p.set n (c.reply entry (next res)) with store := s }, .replied n entry)
  | .change e =>
    match V.change p.store e with
    | none => none
    | some s => some ({ p with store := s }, .changed)

/-- What a step can be. -/
inductive Move (V : Service I S Q A C E) (p : Pool I S Q A) :
    Event Q C E → Pool I S Q A → Output I S → Prop
  | start (r : Q) : Move V p (.start r)
      { p.set p.next ⟨r, p.store, [], V.program r⟩ with next := p.next + 1 } (.started p.next)
  | reply {n : Nat} {choice : C} {c : Call I S Q A} {op : I.Op} {next : I.Res op → Program I A}
      {res : I.Res op} {s : S} (hc : p.calls n = some c) (hprogram : c.program = .await op next)
      (hanswer : V.answer p.store choice op = some (res, s)) :
      Move V p (.resume n choice)
        { p.set n (c.reply ⟨op, res, p.store, s⟩ (next res)) with store := s }
        (.replied n ⟨op, res, p.store, s⟩)
  | change {e : E} {s : S} (hchange : V.change p.store e = some s) :
      Move V p (.change e) { p with store := s } .changed

theorem step_move (h : step V p e = some (p', o)) : Move V p e p' o := by
  cases e with
  | start r => cases h; exact .start r
  | resume n choice =>
    simp only [step] at h
    split at h
    · cases h
    rename_i c hc
    split at h
    · cases h
    rename_i op next hprogram
    split at h
    · cases h
    rename_i res s hanswer
    cases h
    exact .reply hc hprogram hanswer
  | change e =>
    simp only [step] at h
    split at h
    · cases h
    rename_i s hs
    cases h
    exact .change hs

/-! ## The calls of a pool -/

/-- No call has a number that is still to be given. -/
def Pool.Wf (p : Pool I S Q A) : Prop := ∀ n c, p.calls n = some c → n < p.next

theorem Pool.wf_initial (s : S) : (Pool.initial s : Pool I S Q A).Wf := nofun

/-- What a step does to a call: it is new, it has performed one operation, or it is as it
was. -/
inductive Became (V : Service I S Q A C E) (p : Pool I S Q A) (e : Event Q C E) (s : S) (n : Nat)
    (c : Call I S Q A) : Prop
  | start {r : Q} (hn : n = p.next) (hs : s = p.store) (hc : c = ⟨r, p.store, [], V.program r⟩)
  | reply {old : Call I S Q A} {op : I.Op} {next : I.Res op → Program I A} {res : I.Res op}
      (hold : p.calls n = some old) (hprogram : old.program = .await op next)
      (hanswer : Answers V ⟨op, res, p.store, s⟩)
      (hc : c = old.reply ⟨op, res, p.store, s⟩ (next res)) (he : ∃ choice, e = .resume n choice)
  | same (hold : p.calls n = some c) (he : ∀ choice, e ≠ .resume n choice)

theorem Move.became (h : Move V p e p' o) {n : Nat} {c : Call I S Q A}
    (hc : p'.calls n = some c) : Became V p e p'.store n c := by
  cases h with
  | start r =>
    by_cases hn : n = p.next
    · subst hn
      exact .start rfl rfl (by simpa [Pool.set] using hc.symm)
    · exact .same (by simpa [Pool.set, Function.update_of_ne hn] using hc) nofun
  | @reply k choice old op next res s hold hprogram hanswer =>
    by_cases hn : n = k
    · subst hn
      exact .reply hold hprogram ⟨choice, hanswer⟩ (by simpa [Pool.set] using hc.symm) ⟨choice, rfl⟩
    · refine .same (by simpa [Pool.set, Function.update_of_ne hn] using hc) ?_
      rintro _ ⟨⟩
      exact hn rfl
  | change _ => exact .same hc nofun

/-- An answer in the log of a call is old, or it is the answer of the step. -/
theorem Move.answered (h : Move V p e p' o) {n : Nat} {c : Call I S Q A} {op : I.Op}
    {res : I.Res op} (hc : p'.calls n = some c) (ha : Answered c.log op res) :
    (∃ old, p.calls n = some old ∧ Answered old.log op res) ∨
      ∃ old choice next, e = .resume n choice ∧ p.calls n = some old ∧
        old.program = .await op next ∧ V.answer p.store choice op = some (res, p'.store) := by
  cases h with
  | start r =>
    by_cases hn : n = p.next
    · subst hn
      have hnew : c = ⟨r, p.store, [], V.program r⟩ := by simpa [Pool.set] using hc.symm
      subst hnew
      obtain ⟨_, _, h⟩ := ha
      cases h
    · exact .inl ⟨c, by simpa [Pool.set, Function.update_of_ne hn] using hc, ha⟩
  | @reply k choice old op' next res' s hold hprogram hanswer =>
    by_cases hn : n = k
    · subst hn
      have hnew : c = old.reply ⟨op', res', p.store, s⟩ (next res') := by
        simpa [Pool.set] using hc.symm
      subst hnew
      obtain ⟨before, after, h⟩ := ha
      rcases List.mem_cons.mp h with heq | h
      · cases heq
        exact .inr ⟨old, choice, next, rfl, hold, hprogram, hanswer⟩
      · exact .inl ⟨old, hold, before, after, h⟩
    · exact .inl ⟨c, by simpa [Pool.set, Function.update_of_ne hn] using hc, ha⟩
  | change _ => exact .inl ⟨c, hc, ha⟩

/-- An answer that no log held before it was given is the answer of one call. -/
theorem Move.once (h : Move V p e p' o) {op : I.Op} {res : I.Res op}
    (hold : ∀ n m c d, p.calls n = some c → p.calls m = some d → Answered c.log op res →
      Answered d.log op res → n = m)
    (hnew : ∀ choice s, V.answer p.store choice op = some (res, s) →
      ∀ n c, p.calls n = some c → ¬ Answered c.log op res)
    {n m : Nat} {c d : Call I S Q A} (hc : p'.calls n = some c) (hd : p'.calls m = some d)
    (hca : Answered c.log op res) (hda : Answered d.log op res) : n = m := by
  rcases h.answered hc hca with ⟨c₀, hc₀, hca₀⟩ | ⟨c₀, choice, next, he, -, -, hanswer⟩
  · rcases h.answered hd hda with ⟨d₀, hd₀, hda₀⟩ | ⟨d₀, choice, next, -, -, -, hanswer⟩
    · exact hold n m c₀ d₀ hc₀ hd₀ hca₀ hda₀
    · exact absurd hca₀ (hnew choice _ hanswer n c₀ hc₀)
  · rcases h.answered hd hda with ⟨d₀, hd₀, hda₀⟩ | ⟨d₀, choice', next', he', -, -, -⟩
    · exact absurd hda₀ (hnew choice _ hanswer m d₀ hd₀)
    · rw [he] at he'
      cases he'
      rfl

theorem Pool.Wf.step (hwf : p.Wf) (h : Service.step V p e = some (p', o)) : p'.Wf := by
  intro n c hc
  cases step_move h with
  | start r =>
    by_cases hn : n = p.next
    · exact hn ▸ Nat.lt_succ_self _
    · exact Nat.lt_succ_of_lt (hwf n c (by simpa [Pool.set, Function.update_of_ne hn] using hc))
  | @reply k choice old op next res s hold hprogram hanswer =>
    by_cases hn : n = k
    · exact hn ▸ hwf k old hold
    · exact hwf n c (by simpa [Pool.set, Function.update_of_ne hn] using hc)
  | change _ => exact hwf n c hc

theorem Pool.Wf.run (hwf : p.Wf) (h : Run (Service.step V) G p tr p') : p'.Wf :=
  h.invariant (fun _ _ _ _ hwf _ h => hwf.step h) hwf

/-- A call keeps its request and its start, and its log grows. -/
structure Call.Extends (old c : Call I S Q A) : Prop where
  request : c.request = old.request
  begun : c.begun = old.begun
  log : ∃ l, c.log = l ++ old.log

theorem Call.Extends.refl (c : Call I S Q A) : c.Extends c := ⟨rfl, rfl, [], rfl⟩

theorem Call.Extends.trans {a b c : Call I S Q A} (hab : a.Extends b) (hbc : b.Extends c) :
    a.Extends c := by
  obtain ⟨l, hl⟩ := hab.log
  obtain ⟨l', hl'⟩ := hbc.log
  exact ⟨hbc.request.trans hab.request, hbc.begun.trans hab.begun, l' ++ l, by
    rw [hl', hl, List.append_assoc]⟩

theorem Call.Extends.mem {old c : Call I S Q A} (h : old.Extends c) {x : Entry I S}
    (hx : x ∈ old.log) : x ∈ c.log := by
  obtain ⟨l, hl⟩ := h.log
  rw [hl]
  exact List.mem_append_right _ hx

theorem extends_of_step (hwf : p.Wf) (h : step V p e = some (p', o)) {n : Nat}
    {c : Call I S Q A} (hc : p.calls n = some c) : ∃ c', p'.calls n = some c' ∧ c.Extends c' := by
  cases step_move h with
  | start r =>
    have hn : n ≠ p.next := Nat.ne_of_lt (hwf n c hc)
    exact ⟨c, by simpa [Pool.set, Function.update_of_ne hn] using hc, .refl c⟩
  | @reply k choice old op next res s hold hprogram hanswer =>
    by_cases hn : n = k
    · subst hn
      cases hold.symm.trans hc
      exact ⟨c.reply ⟨op, res, p.store, s⟩ (next res), by simp [Pool.set], rfl, rfl, [_], rfl⟩
    · exact ⟨c, by simpa [Pool.set, Function.update_of_ne hn] using hc, .refl c⟩
  | change _ => exact ⟨c, hc, .refl c⟩

theorem extends_of_run (hwf : p.Wf) (h : Run (step V) G p tr p') {n : Nat} {c : Call I S Q A}
    (hc : p.calls n = some c) : ∃ c', p'.calls n = some c' ∧ c.Extends c' := by
  induction h generalizing c with
  | nil => exact ⟨c, hc, .refl c⟩
  | cons _ hstep _ ih =>
    obtain ⟨c₁, hc₁, h₁⟩ := extends_of_step hwf hstep hc
    obtain ⟨c₂, hc₂, h₂⟩ := ih (hwf.step hstep) hc₁
    exact ⟨c₂, hc₂, h₁.trans h₂⟩

/-! ## Programs in a run -/

/-- What the programs of a service obey. -/
structure Spec (V : Service I S Q A C E) (P : Q → List (Entry I S) → I.Op → Prop)
    (R : Q → List (Entry I S) → A → Prop) : Prop where
  obeys : ∀ r, (V.program r).Obeys (Answers V) (P r) (R r) []

/-- The calls of a pool still obey what their programs obeyed at the start. -/
def Pool.Obeys (V : Service I S Q A C E) (P : Q → List (Entry I S) → I.Op → Prop)
    (R : Q → List (Entry I S) → A → Prop) (p : Pool I S Q A) : Prop :=
  ∀ n c, p.calls n = some c → c.program.Obeys (Answers V) (P c.request) (R c.request) c.log

namespace Spec

variable {P : Q → List (Entry I S) → I.Op → Prop} {R : Q → List (Entry I S) → A → Prop}

theorem step (hV : Spec V P R) (hp : p.Obeys V P R) (h : Service.step V p e = some (p', o)) :
    p'.Obeys V P R := by
  intro n c hc
  cases (step_move h).became hc with
  | start _ _ hc => exact hc ▸ hV.obeys _
  | reply hold hprogram hanswer hc =>
    have hold' := hp n _ hold
    rw [hprogram] at hold'
    exact hc ▸ hold'.2 _ _ _ hanswer
  | same hold => exact hp n c hold

theorem run (hV : Spec V P R) {s : S} (h : Run (Service.step V) G (.initial s) tr p) :
    p.Obeys V P R :=
  h.invariant (fun _ _ _ _ hp _ h => hV.step hp h) nofun

/-- A call that has returned meets the postcondition of its program. -/
theorem finished (hV : Spec V P R) {s : S} (h : Run (Service.step V) G (.initial s) tr p)
    {n : Nat} {c : Call I S Q A} (hc : p.calls n = some c) {a : A}
    (hdone : c.program = .done a) : R c.request c.log a := by
  have hobeys := hV.run h n c hc
  rwa [hdone] at hobeys

/-- A call that performs an operation meets the condition of its program on it. -/
theorem performs (hV : Spec V P R) {s : S} (h : Run (Service.step V) G (.initial s) tr p)
    {n : Nat} {c : Call I S Q A} (hc : p.calls n = some c) {op : I.Op}
    {next : I.Res op → Program I A} (hawait : c.program = .await op next) :
    P c.request c.log op := by
  have hobeys := hV.run h n c hc
  rw [hawait] at hobeys
  exact hobeys.1

/-- The condition on an operation held of the log before it, for every entry of a log. -/
theorem performed (hV : Spec V P R) {s : S} (h : Run (Service.step V) G (.initial s) tr p)
    {n : Nat} {c : Call I S Q A} (hc : p.calls n = some c) {l l' : List (Entry I S)}
    {x : Entry I S} (hlog : c.log = l ++ x :: l') : P c.request l' x.op := by
  suffices hall : p.Obeys V P R ∧ ∀ n c, p.calls n = some c → ∀ l x l',
      c.log = l ++ x :: l' → P c.request l' x.op from hall.2 n c hc l x l' hlog
  refine h.invariant (I := fun p => p.Obeys V P R ∧ ∀ n c, p.calls n = some c → ∀ l x l',
    c.log = l ++ x :: l' → P c.request l' x.op) ?_ ⟨nofun, nofun⟩
  rintro p e p' o ⟨hobeys, hp⟩ - hstep
  refine ⟨hV.step hobeys hstep, fun n c hc l x l' hlog => ?_⟩
  cases (step_move hstep).became hc with
  | start _ _ hc => simp [hc] at hlog
  | same hold => exact hp n c hold l x l' hlog
  | @reply old op next res hold hprogram hanswer hc =>
    subst hc
    have hold' := hobeys n old hold
    rw [hprogram] at hold'
    cases l with
    | nil =>
      obtain ⟨rfl, rfl⟩ := List.cons.inj hlog
      exact hold'.1
    | cons y l => exact hp n old hold l x l' (List.cons.inj hlog).2

/-- The same, for an answer in a log. -/
theorem answered (hV : Spec V P R) {s : S} (h : Run (Service.step V) G (.initial s) tr p)
    {n : Nat} {c : Call I S Q A} (hc : p.calls n = some c) {op : I.Op} {res : I.Res op}
    (ha : Answered c.log op res) : ∃ l, (∀ x ∈ l, x ∈ c.log) ∧ P c.request l op := by
  obtain ⟨before, after, hmem⟩ := ha
  obtain ⟨l₁, l₂, hlog⟩ := List.append_of_mem hmem
  exact ⟨l₂, fun x hx => by simp [hlog, hx], hV.performed h hc hlog⟩

end Spec

/-! ## Logs in a run -/

/-- **Assertion rule.** An assertion about the store and a call that holds when the call
starts, is kept by the operations of the call, and is not broken by what others do, holds
of every call. -/
theorem Run.stable {J : S → Call I S Q A → Prop} {s : S}
    (hstart : ∀ p r, G p (.start r) → J p.store ⟨r, p.store, [], V.program r⟩)
    (hown : ∀ p n choice c op next res s', G p (.resume n choice) → p.calls n = some c →
      c.program = .await op next → V.answer p.store choice op = some (res, s') →
      J p.store c → J s' (c.reply ⟨op, res, p.store, s'⟩ (next res)))
    (hother : ∀ p n c e p' o, G p e → Service.step V p e = some (p', o) → p.calls n = some c →
      p'.calls n = some c → J p.store c → J p'.store c)
    (h : Run (Service.step V) G (.initial s) tr p) {n : Nat} {c : Call I S Q A}
    (hc : p.calls n = some c) : J p.store c := by
  have hall : ∀ n c, p.calls n = some c → J p.store c := by
    refine h.invariant (I := fun p => ∀ n c, p.calls n = some c → J p.store c) ?_ nofun
    intro p e p' o hp hG hstep n c hc
    cases hmove : step_move hstep with
    | start r =>
      by_cases hn : n = p.next
      · subst hn
        have hnew : c = ⟨r, p.store, [], V.program r⟩ := by simpa [Pool.set] using hc.symm
        exact hnew ▸ hstart p r hG
      · exact hp n c (by simpa [Pool.set, Function.update_of_ne hn] using hc)
    | @reply k choice old op next res s hold hprogram hanswer =>
      by_cases hn : n = k
      · subst hn
        have hnew : c = old.reply ⟨op, res, p.store, s⟩ (next res) := by
          simpa [Pool.set] using hc.symm
        exact hnew ▸ hown p n choice old op next res s hG hold hprogram hanswer (hp n old hold)
      · have hold' : p.calls n = some c := by
          simpa [Pool.set, Function.update_of_ne hn] using hc
        exact hother p n c _ _ _ hG hstep hold' hc (hp n c hold')
    | change _ => exact hother p n c _ _ _ hG hstep hc hc (hp n c hc)
  exact hall n c hc

/-- The entries of a log are answers of the service. -/
theorem Run.answers {s : S} (h : Run (Service.step V) G (.initial s) tr p) {n : Nat}
    {c : Call I S Q A} (hc : p.calls n = some c) : ∀ x ∈ c.log, Answers V x := by
  refine Run.stable (J := fun _ c => ∀ x ∈ c.log, Answers V x) ?_ ?_ ?_ h hc
  · intro p r _
    simp
  · intro p n choice c op next res s' _ _ _ hanswer hJ x hx
    rcases List.mem_cons.mp hx with rfl | hx
    · exact ⟨choice, hanswer⟩
    · exact hJ x hx
  · intro p n c e p' o _ _ _ _ hJ
    exact hJ

/-- A relation between stores that every answer and every change respects. -/
structure Grows (V : Service I S Q A C E) (L : S → S → Prop) : Prop where
  refl : ∀ s, L s s
  trans : ∀ a b c, L a b → L b c → L a c
  answer : ∀ s choice op res s', V.answer s choice op = some (res, s') → L s s'
  change : ∀ s e s', V.change s e = some s' → L s s'

namespace Grows

variable {L : S → S → Prop}

theorem step (hL : Grows V L) (h : Service.step V p e = some (p', o)) : L p.store p'.store := by
  cases step_move h with
  | start r => exact hL.refl _
  | reply _ _ hanswer => exact hL.answer _ _ _ _ _ hanswer
  | change hchange => exact hL.change _ _ _ hchange

theorem run (hL : Grows V L) (h : Run (Service.step V) G p tr p') : L p.store p'.store :=
  h.relates (R := fun p p' => L p.store p'.store) (fun p => hL.refl p.store)
    (fun _ _ _ => hL.trans _ _ _) (fun _ _ _ _ _ h => hL.step h)

/-- The store has grown since the start of a call. -/
theorem begun (hL : Grows V L) {s : S} (h : Run (Service.step V) G (.initial s) tr p) {n : Nat}
    {c : Call I S Q A} (hc : p.calls n = some c) :
    L c.begun p.store ∧ ∀ x ∈ c.log, L c.begun x.before := by
  refine Run.stable (J := fun s c => L c.begun s ∧ ∀ x ∈ c.log, L c.begun x.before) ?_ ?_ ?_ h hc
  · intro p r _
    exact ⟨hL.refl _, by simp⟩
  · intro p n choice c op next res s' _ _ _ hanswer ⟨hJ, hlog⟩
    refine ⟨hL.trans _ _ _ hJ (hL.answer _ _ _ _ _ hanswer), fun x hx => ?_⟩
    rcases List.mem_cons.mp hx with rfl | hx
    · exact hJ
    · exact hlog x hx
  · intro p n c e p' o _ hstep _ _ ⟨hJ, hlog⟩
    exact ⟨hL.trans _ _ _ hJ (hL.step hstep), hlog⟩

end Grows

/-- An entry of a log is old, or it was made at a step of the run. -/
theorem Run.entry (h : Run (Service.step V) G p tr p') {n : Nat} {c : Call I S Q A}
    (hc : p'.calls n = some c) {x : Entry I S} (hx : x ∈ c.log) :
    (∃ old, p.calls n = some old ∧ x ∈ old.log) ∨
      ∃ tr₁ tr₂ choice m m', tr = tr₁ ++ (.resume n choice, .replied n x) :: tr₂ ∧
        Run (Service.step V) G p tr₁ m ∧
        Service.step V m (.resume n choice) = some (m', .replied n x) ∧
        V.answer m.store choice x.op = some (x.res, m'.store) ∧
        m.store = x.before ∧ m'.store = x.after ∧ Run (Service.step V) G m' tr₂ p' := by
  induction h with
  | nil => exact .inl ⟨c, hc, hx⟩
  | @cons p p₁ p' e o tr hG hstep rest ih =>
    rcases ih hc with ⟨c₁, hc₁, hx₁⟩ | ⟨tr₁, tr₂, choice, m, m', rfl, hbefore, hrest⟩
    · cases hmove : step_move hstep with
      | start r =>
        by_cases hn : n = p.next
        · subst hn
          have hnew : c₁ = ⟨r, p.store, [], V.program r⟩ := by simpa [Pool.set] using hc₁.symm
          subst hnew
          cases hx₁
        · exact .inl ⟨c₁, by simpa [Pool.set, Function.update_of_ne hn] using hc₁, hx₁⟩
      | @reply k choice old op next res s hold hprogram hanswer =>
        by_cases hn : n = k
        · subst hn
          have hnew : c₁ = old.reply ⟨op, res, p.store, s⟩ (next res) := by
            simpa [Pool.set] using hc₁.symm
          subst hnew
          rcases List.mem_cons.mp hx₁ with rfl | hx₁
          · exact .inr ⟨[], tr, choice, p, _, rfl, .nil p, hstep, hanswer, rfl, rfl, rest⟩
          · exact .inl ⟨old, hold, hx₁⟩
        · exact .inl ⟨c₁, by simpa [Pool.set, Function.update_of_ne hn] using hc₁, hx₁⟩
      | change _ => exact .inl ⟨c₁, hc₁, hx₁⟩
    · exact .inr ⟨_ :: tr₁, tr₂, choice, m, m', rfl, .cons hG hstep hbefore, hrest⟩

/-- The step at which an entry of a log was made, in a run from the start. -/
theorem Run.made {s : S} (h : Run (Service.step V) G (.initial s) tr p) {n : Nat}
    {c : Call I S Q A} (hc : p.calls n = some c) {x : Entry I S} (hx : x ∈ c.log) :
    ∃ tr₁ tr₂ choice m m' old next, tr = tr₁ ++ (.resume n choice, .replied n x) :: tr₂ ∧
      Run (Service.step V) G (.initial s) tr₁ m ∧
      Service.step V m (.resume n choice) = some (m', .replied n x) ∧ m.calls n = some old ∧
      old.program = .await x.op next ∧ V.answer m.store choice x.op = some (x.res, m'.store) ∧
      Run (Service.step V) G m' tr₂ p := by
  rcases Run.entry h hc hx with ⟨old, hold, -⟩ | ⟨tr₁, tr₂, choice, m, m', rfl, hm, hstep, hanswer,
    -, -, hm'⟩
  · cases hold
  · suffices hcall : ∃ old next, m.calls n = some old ∧ old.program = .await x.op next by
      obtain ⟨old, next, hold, hprogram⟩ := hcall
      exact ⟨tr₁, tr₂, choice, m, m', old, next, rfl, hm, hstep, hold, hprogram, hanswer, hm'⟩
    generalize ho : Output.replied n x = o at hstep
    cases step_move hstep with
    | @reply _ _ old op next res s hold hprogram _ =>
      cases ho
      exact ⟨old, next, hold, hprogram⟩

/-- In the trace, the call performs the operation before the other call performs the other
operation. -/
def Precedes (tr : List (Event Q C E × Output I S)) (n : Nat) (op : I.Op) (k : Nat) (op' : I.Op) :
    Prop :=
  ∃ tr₁ tr₂ tr₃ choice choice' x y, tr = tr₁ ++ (.resume n choice, .replied n x) ::
    (tr₂ ++ (.resume k choice', .replied k y) :: tr₃) ∧ x.op = op ∧ y.op = op'

/-- What is in a log when a call performs an operation was performed before it. -/
theorem Precedes.intro {s : S} {tr₁ tr₂ : List (Event Q C E × Output I S)} {k : Nat} {choice : C}
    {y : Entry I S} (h : Run (Service.step V) G (.initial s) tr₁ m) {n : Nat} {c : Call I S Q A}
    (hc : m.calls n = some c) {op : I.Op} {res : I.Res op} (ha : Answered c.log op res) :
    Precedes (tr₁ ++ (.resume k choice, .replied k y) :: tr₂ : List (Event Q C E × Output I S))
      n op k y.op := by
  obtain ⟨before, after, hmem⟩ := ha
  obtain ⟨t₁, t₂, choice', _, _, _, _, rfl, -⟩ := Run.made h hc hmem
  exact ⟨t₁, t₂, tr₂, choice', choice, ⟨op, res, before, after⟩, y, by simp, rfl, rfl⟩

end Service

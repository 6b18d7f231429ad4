import Mathlib.Data.List.Basic

/-!
# Programs that wait

`Program I α` is an asynchronous function: it performs operations of the interface `I`,
one after the other, waits for the answer of each, and returns an `α`. What happens
between two operations is not visible to anybody else, so it is a plain function.

`Program.Obeys R P Q log p` says what `p` does, whatever the answers are. An answer is
recorded in the log as an `Entry`, together with the store before and after the
operation; `R` says which entries are possible. When `p` performs an operation, `P` holds
of the log and the operation, and when it returns, `Q` holds of the log and the value.
-/

namespace Service

/-- Operations, and what each one answers. -/
structure Interface where
  Op : Type
  Res : Op → Type

inductive Program (I : Interface) (α : Type)
  | done (a : α)
  | await (op : I.Op) (next : I.Res op → Program I α)

variable {I : Interface} {α β γ : Type}

namespace Program

def bind : Program I α → (α → Program I β) → Program I β
  | .done a, f => f a
  | .await op next, f => .await op fun res => (next res).bind f

instance : Monad (Program I) where
  pure := .done
  bind := .bind

/-- Performs one operation and returns its answer. -/
def perform (op : I.Op) : Program I (I.Res op) := .await op .done

@[simp] theorem pure_eq (a : α) : (pure a : Program I α) = .done a := rfl

@[simp] theorem done_bind (a : α) (f : α → Program I β) : (.done a >>= f) = f a := rfl

@[simp] theorem await_bind (op : I.Op) (next : I.Res op → Program I α) (f : α → Program I β) :
    (.await op next >>= f) = .await op fun res => next res >>= f := rfl

@[simp] theorem perform_bind (op : I.Op) (f : I.Res op → Program I β) :
    (perform op >>= f) = .await op f := rfl

theorem bind_assoc (p : Program I α) (f : α → Program I β) (g : β → Program I γ) :
    (p >>= f >>= g) = p >>= fun a => f a >>= g := by
  induction p with
  | done a => rfl
  | await op next ih =>
    simp only [await_bind]
    exact congrArg (Program.await op) (funext ih)

end Program

/-- An operation that has been performed: the answer, and the store before and after. -/
structure Entry (I : Interface) (S : Type) where
  op : I.Op
  res : I.Res op
  before : S
  after : S

/-- The operation is in the log, with this answer. -/
def Answered {S : Type} (log : List (Entry I S)) (op : I.Op) (res : I.Res op) : Prop :=
  ∃ before after, (⟨op, res, before, after⟩ : Entry I S) ∈ log

namespace Answered

variable {S : Type} {log : List (Entry I S)} {op : I.Op} {res : I.Res op} {x : Entry I S}

theorem here {before after : S} : Answered (⟨op, res, before, after⟩ :: log) op res :=
  ⟨before, after, List.mem_cons_self⟩

theorem there (h : Answered log op res) : Answered (x :: log) op res := by
  obtain ⟨before, after, h⟩ := h
  exact ⟨before, after, List.mem_cons_of_mem _ h⟩

theorem mono {log' : List (Entry I S)} (h : Answered log op res) (hlog : ∀ x ∈ log, x ∈ log') :
    Answered log' op res := by
  obtain ⟨before, after, h⟩ := h
  exact ⟨before, after, hlog _ h⟩

end Answered

variable {S : Type} {R : Entry I S → Prop} {P P' : List (Entry I S) → I.Op → Prop}
  {Q Q' : List (Entry I S) → α → Prop}

namespace Program

/-- Whatever the answers are: `P` holds of the log, newest entry first, when an operation
is performed, and `Q` when the program returns. -/
def Obeys (R : Entry I S → Prop) (P : List (Entry I S) → I.Op → Prop)
    (Q : List (Entry I S) → α → Prop) : List (Entry I S) → Program I α → Prop
  | log, .done a => Q log a
  | log, .await op next => P log op ∧
    ∀ res before after, R ⟨op, res, before, after⟩ →
      Obeys R P Q (⟨op, res, before, after⟩ :: log) (next res)

@[simp] theorem obeys_done {log : List (Entry I S)} {a : α} :
    Obeys R P Q log (.done a) ↔ Q log a := Iff.rfl

@[simp] theorem obeys_await {log : List (Entry I S)} {op : I.Op}
    {next : I.Res op → Program I α} :
    Obeys R P Q log (.await op next) ↔ P log op ∧
      ∀ res before after, R ⟨op, res, before, after⟩ →
        Obeys R P Q (⟨op, res, before, after⟩ :: log) (next res) := Iff.rfl

theorem Obeys.mono {log : List (Entry I S)} {p : Program I α} (h : Obeys R P Q log p)
    (hP : ∀ log op, P log op → P' log op) (hQ : ∀ log a, Q log a → Q' log a) :
    Obeys R P' Q' log p := by
  induction p generalizing log with
  | done a => exact hQ log a h
  | await op next ih =>
    exact ⟨hP log op h.1, fun res before after hR => ih res (h.2 res before after hR)⟩

/-- **Sequence rule.** -/
theorem obeys_bind {Q : List (Entry I S) → β → Prop} {log : List (Entry I S)}
    {p : Program I α} {f : α → Program I β} :
    Obeys R P Q log (p >>= f) ↔ Obeys R P (fun log a => Obeys R P Q log (f a)) log p := by
  induction p generalizing log with
  | done a => rfl
  | await op next ih =>
    rw [await_bind, obeys_await, obeys_await]
    exact and_congr_right fun _ => forall_congr' fun res => forall_congr' fun _ =>
      forall_congr' fun _ => forall_congr' fun _ => ih res

/-- What is known of the operations and what is known of the result can be shown apart. -/
theorem Obeys.and {log : List (Entry I S)} {p : Program I α} (h : Obeys R P Q log p)
    (h' : Obeys R P' Q' log p) :
    Obeys R (fun log op => P log op ∧ P' log op) (fun log a => Q log a ∧ Q' log a) log p := by
  induction p generalizing log with
  | done a => exact ⟨h, h'⟩
  | await op next ih =>
    exact ⟨⟨h.1, h'.1⟩, fun res before after hR =>
      ih res (h.2 res before after hR) (h'.2 res before after hR)⟩

end Program

end Service

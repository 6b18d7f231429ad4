import AuthMe.Service.Program

/-!
# Programs that fail

An operation can answer with an error, and a program that does not catch it ends with it. The rule
of sequence is that of `Program.Obeys`, for programs in `ExceptT`.
-/

namespace Service

/-- Programs that end with a value or with an error. -/
abbrev Fallible (I : Interface) (ε α : Type) : Type := ExceptT ε (Program I) α

namespace Fallible

variable {I : Interface} {S ε α β : Type} {R : Entry I S → Prop}
  {P : List (Entry I S) → I.Op → Prop} {log : List (Entry I S)}

/-- What the rest of a program does with an answer. -/
def After (R : Entry I S → Prop) (P : List (Entry I S) → I.Op → Prop)
    (Q : List (Entry I S) → Except ε β → Prop) (f : α → Fallible I ε β) (log : List (Entry I S)) :
    Except ε α → Prop
  | .ok a => Program.Obeys R P Q log (f a).run
  | .error e => Q log (.error e)

/-- **Sequence rule.** -/
theorem obeys_bind {Q : List (Entry I S) → Except ε β → Prop} {x : Fallible I ε α}
    {f : α → Fallible I ε β} :
    Program.Obeys R P Q log (x >>= f).run ↔ Program.Obeys R P (After R P Q f) log x.run := by
  have hrun : (x >>= f).run = x.run >>= ExceptT.bindCont f := rfl
  rw [hrun, Program.obeys_bind]
  have hafter : (fun log a => Program.Obeys R P Q log (ExceptT.bindCont f a)) =
      After R P Q f := by
    funext log a
    cases a <;> rfl
  rw [hafter]

end Fallible

end Service

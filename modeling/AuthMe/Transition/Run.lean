import Mathlib.Data.List.Count
import Mathlib.Logic.Function.Basic

/-!
# Runs of a machine

A machine is a partial step function `step : σ → ε → Option (σ × ω)`. An event `ε`
carries every choice of the scheduler and of the environment, so a step is a function;
`none` says that the event cannot happen in that state. An observation `ω` is what the
step shows to the outside.

* `Run step G s tr s'`: from `s` the trace `tr` of events and observations leads to
  `s'`, and every step was taken in a state and with an event that satisfy `G`. The
  runs without a condition are `Run step (fun _ _ => True)`.
* `Run.invariant`, `Run.relates`: what one step preserves, a run preserves.
* `Run.count_le_one`: the rule for things that happen at most once. A hit needs a flag
  to be down and raises it, and no step takes it down again.
* `exec` runs a list of events, for evaluation.
-/

namespace Transition

variable {σ ε ω : Type*}

/-- From `s` the trace `tr` leads to `s'`, and `G` holds of the state and the event of
every step. -/
inductive Run (step : σ → ε → Option (σ × ω)) (G : σ → ε → Prop) :
    σ → List (ε × ω) → σ → Prop
  | nil (s : σ) : Run step G s [] s
  | cons {s s' s'' : σ} {e : ε} {o : ω} {tr : List (ε × ω)} (hG : G s e)
      (hstep : step s e = some (s', o)) (rest : Run step G s' tr s'') :
      Run step G s ((e, o) :: tr) s''

/-- The condition that every step meets. -/
def Always : σ → ε → Prop := fun _ _ => True

instance (s : σ) (e : ε) : Decidable (Always s e) := .isTrue trivial

namespace Run

variable {step : σ → ε → Option (σ × ω)} {G H : σ → ε → Prop} {s s' s'' : σ}
  {tr tr' : List (ε × ω)}

theorem single {e : ε} {o : ω} (hG : G s e) (h : step s e = some (s', o)) :
    Run step G s [(e, o)] s' := .cons hG h (.nil _)

theorem append (h : Run step G s tr s') (h' : Run step G s' tr' s'') :
    Run step G s (tr ++ tr') s'' := by
  induction h with
  | nil => exact h'
  | cons hG hstep _ ih => exact .cons hG hstep (ih h')

/-- A run along a concatenation passes through a state in the middle. -/
theorem split (h : Run step G s (tr ++ tr') s'') :
    ∃ m, Run step G s tr m ∧ Run step G m tr' s'' := by
  induction tr generalizing s with
  | nil => exact ⟨s, .nil s, h⟩
  | cons x tr ih =>
    cases h with
    | cons hG hstep rest =>
      obtain ⟨m, h1, h2⟩ := ih rest
      exact ⟨m, .cons hG hstep h1, h2⟩

/-- The step at a given place of a trace, with the runs before and after it. -/
theorem split_at {e : ε} {o : ω} (h : Run step G s (tr ++ (e, o) :: tr') s'') :
    ∃ m m', Run step G s tr m ∧ G m e ∧ step m e = some (m', o) ∧ Run step G m' tr' s'' := by
  obtain ⟨m, h1, h2⟩ := h.split
  cases h2 with
  | cons hG hstep rest => exact ⟨m, _, h1, hG, hstep, rest⟩

/-- A trace leads to one state only. -/
theorem eq_of_trace {s₁ s₂ : σ} (h₁ : Run step G s tr s₁) (h₂ : Run step G s tr s₂) : s₁ = s₂ := by
  induction h₁ with
  | nil =>
    cases h₂
    rfl
  | cons _ hstep _ ih =>
    cases h₂ with
    | cons _ hstep' rest =>
      rw [hstep] at hstep'
      cases hstep'
      exact ih rest

theorem weaken (hGH : ∀ s e, G s e → H s e) (h : Run step G s tr s') : Run step H s tr s' := by
  induction h with
  | nil => exact .nil _
  | cons hG hstep _ ih => exact .cons (hGH _ _ hG) hstep ih

/-- What a trace shows of every step can be added to the condition. -/
theorem strengthen {P : ε × ω → Prop}
    (hH : ∀ s e s' o, G s e → step s e = some (s', o) → P (e, o) → H s e)
    (h : Run step G s tr s') (htr : ∀ x ∈ tr, P x) : Run step H s tr s' := by
  induction h with
  | nil => exact .nil _
  | cons hG hstep _ ih =>
    have hrest := ih fun x hx => htr x (List.mem_cons_of_mem _ hx)
    exact .cons (hH _ _ _ _ hG hstep (htr _ List.mem_cons_self)) hstep hrest

theorem always (h : Run step G s tr s') : Run step Always s tr s' :=
  h.weaken fun _ _ _ => trivial

/-- **Invariant rule.** What every admitted step preserves, a run preserves. -/
theorem invariant {I : σ → Prop}
    (hI : ∀ s e s' o, I s → G s e → step s e = some (s', o) → I s')
    (h : Run step G s tr s') (h0 : I s) : I s' := by
  induction h with
  | nil => exact h0
  | cons hG hstep _ ih => exact ih (hI _ _ _ _ h0 hG hstep)

/-- **History rule.** An assertion about the state and the trace that has led to it, which
every admitted step preserves, holds at the end of a run. -/
theorem history {I : σ → List (ε × ω) → Prop}
    (hI : ∀ s h e s' o, I s h → G s e → step s e = some (s', o) → I s' (h ++ [(e, o)]))
    (h : Run step G s tr s') (h0 : I s []) : I s' tr := by
  suffices hall : ∀ past, I s past → I s' (past ++ tr) from hall [] h0
  clear h0
  induction h with
  | nil => intro past hpast; simpa using hpast
  | @cons s s₁ s₂ e o tr hG hstep _ ih =>
    intro past hpast
    have hnext := ih (past ++ [(e, o)]) (hI _ _ _ _ _ hpast hG hstep)
    simpa using hnext

/-- The history rule, where a step also knows the run that has led to it. -/
theorem along {I : σ → List (ε × ω) → Prop}
    (hI : ∀ m h e m' o, Run step G s h m → I m h → G m e → step m e = some (m', o) →
      I m' (h ++ [(e, o)]))
    (h : Run step G s tr s') (h0 : I s []) : I s' tr := by
  refine (h.history (I := fun m past => Run step G s past m ∧ I m past) ?_ ⟨.nil s, h0⟩).2
  rintro m past e m' o ⟨hrun, hm⟩ hG hstep
  exact ⟨hrun.append (.single hG hstep), hI _ _ _ _ _ hrun hm hG hstep⟩

/-- **Relation rule.** A reflexive and transitive relation that every admitted step
respects holds between the ends of a run. -/
theorem relates {R : σ → σ → Prop} (hrefl : ∀ s, R s s)
    (htrans : ∀ a b c, R a b → R b c → R a c)
    (hR : ∀ s e s' o, G s e → step s e = some (s', o) → R s s')
    (h : Run step G s tr s') : R s s' := by
  induction h with
  | nil => exact hrefl _
  | cons hG hstep _ ih => exact htrans _ _ _ (hR _ _ _ _ hG hstep) ih

/-- The relation rule under an invariant. -/
theorem relates_of_invariant {I : σ → Prop} {R : σ → σ → Prop} (hrefl : ∀ s, R s s)
    (htrans : ∀ a b c, R a b → R b c → R a c)
    (hI : ∀ s e s' o, I s → G s e → step s e = some (s', o) → I s')
    (hR : ∀ s e s' o, I s → G s e → step s e = some (s', o) → R s s')
    (h : Run step G s tr s') (h0 : I s) : R s s' := by
  induction h with
  | nil => exact hrefl _
  | cons hG hstep _ ih =>
    exact htrans _ _ _ (hR _ _ _ _ h0 hG hstep) (ih (hI _ _ _ _ h0 hG hstep))

/-- Once the flag is up there is no further hit. -/
theorem count_eq_zero {I F : σ → Prop} {hit : ε × ω → Bool}
    (hI : ∀ s e s' o, I s → G s e → step s e = some (s', o) → I s')
    (hdown : ∀ s e s' o, I s → G s e → step s e = some (s', o) → hit (e, o) = true → ¬ F s)
    (hkeep : ∀ s e s' o, I s → G s e → step s e = some (s', o) → F s → F s')
    (h : Run step G s tr s') (h0 : I s) (hF : F s) : tr.countP hit = 0 := by
  induction h with
  | nil => rfl
  | @cons s s1 s2 e o tr hG hstep _ ih =>
    have hmiss : hit (e, o) = false := by
      cases hh : hit (e, o) with
      | false => rfl
      | true => exact absurd hF (hdown _ _ _ _ h0 hG hstep hh)
    rw [List.countP_cons_of_neg (by simp [hmiss])]
    exact ih (hI _ _ _ _ h0 hG hstep) (hkeep _ _ _ _ h0 hG hstep hF)

/-- **At-most-once rule.** A hit happens only while the flag is down and raises it, and
no step takes the flag down: a run has at most one hit. -/
theorem count_le_one {I F : σ → Prop} {hit : ε × ω → Bool}
    (hI : ∀ s e s' o, I s → G s e → step s e = some (s', o) → I s')
    (hdown : ∀ s e s' o, I s → G s e → step s e = some (s', o) → hit (e, o) = true → ¬ F s)
    (hraise : ∀ s e s' o, I s → G s e → step s e = some (s', o) → hit (e, o) = true → F s')
    (hkeep : ∀ s e s' o, I s → G s e → step s e = some (s', o) → F s → F s')
    (h : Run step G s tr s') (h0 : I s) : tr.countP hit ≤ 1 := by
  induction h with
  | nil => simp
  | @cons s s1 s2 e o tr hG hstep rest ih =>
    have h1 := hI _ _ _ _ h0 hG hstep
    by_cases hh : hit (e, o) = true
    · have hrest := count_eq_zero hI hdown hkeep rest h1 (hraise _ _ _ _ h0 hG hstep hh)
      exact Nat.le_of_eq (by rw [List.countP_cons_of_pos hh, hrest])
    · rw [List.countP_cons_of_neg hh]
      exact ih h1

end Run

/-- The trace has passed through the state after `n` steps. -/
def Passed (step : σ → ε → Option (σ × ω)) (s : σ) (tr : List (ε × ω)) (n : Nat) (m : σ) : Prop :=
  ∃ tr₁ tr₂, tr = tr₁ ++ tr₂ ∧ tr₁.length = n ∧ Run step Always s tr₁ m

namespace Passed

variable {step : σ → ε → Option (σ × ω)} {s m m' : σ} {tr tr' : List (ε × ω)} {n : Nat}

theorem intro (h : Run step Always s tr m) : Passed step s tr tr.length m :=
  ⟨tr, [], by simp, rfl, h⟩

theorem append (h : Passed step s tr n m) : Passed step s (tr ++ tr') n m := by
  obtain ⟨tr₁, tr₂, rfl, hn, hm⟩ := h
  exact ⟨tr₁, tr₂ ++ tr', by simp, hn, hm⟩

theorem unique (h : Passed step s tr n m) (h' : Passed step s tr n m') : m = m' := by
  obtain ⟨tr₁, tr₂, rfl, rfl, hm⟩ := h
  obtain ⟨tr₃, tr₄, heq, hn, hm'⟩ := h'
  obtain ⟨rfl, -⟩ := List.append_inj heq hn.symm
  exact hm.eq_of_trace hm'

end Passed

/-- Every step of the trace, with the states before and after it, satisfies `P`. -/
def EachStep (step : σ → ε → Option (σ × ω)) (P : σ → ε → σ → Prop) (s : σ)
    (tr : List (ε × ω)) : Prop :=
  ∀ past e o rest m m', tr = past ++ (e, o) :: rest → Run step Always s past m →
    step m e = some (m', o) → P m e m'

theorem EachStep.congr {step : σ → ε → Option (σ × ω)} {P Q : σ → ε → σ → Prop} {s : σ}
    {tr : List (ε × ω)} (h : ∀ m e o m', step m e = some (m', o) → (P m e m' ↔ Q m e m')) :
    EachStep step P s tr ↔ EachStep step Q s tr := by
  constructor
  · intro hP past e o rest m m' htr hrun hstep
    exact (h m e o m' hstep).mp (hP past e o rest m m' htr hrun hstep)
  · intro hQ past e o rest m m' htr hrun hstep
    exact (h m e o m' hstep).mpr (hQ past e o rest m m' htr hrun hstep)

/-- A place in a trace with one more step is that step, or a place before it. -/
theorem concat_eq_append_cons {γ : Type*} {list past rest : List γ} {x y : γ}
    (h : list ++ [x] = past ++ y :: rest) :
    (past = list ∧ y = x ∧ rest = []) ∨ ∃ rest', rest = rest' ++ [x] ∧ list = past ++ y :: rest' := by
  rcases List.eq_nil_or_concat rest with rfl | ⟨rest', z, rfl⟩
  · obtain ⟨rfl, hxy⟩ := List.append_singleton_inj.mp h
    exact .inl ⟨rfl, hxy.symm, rfl⟩
  · rw [List.concat_eq_append, ← List.cons_append, ← List.append_assoc] at h
    obtain ⟨rfl, rfl⟩ := List.append_singleton_inj.mp h
    exact .inr ⟨rest', List.concat_eq_append, rfl⟩

theorem EachStep.nil {step : σ → ε → Option (σ × ω)} {P : σ → ε → σ → Prop} {s : σ} :
    EachStep step P s [] := by
  intro past e o rest m m' htr
  cases past <;> cases htr

theorem EachStep.concat {step : σ → ε → Option (σ × ω)} {P : σ → ε → σ → Prop} {s m m' : σ}
    {tr : List (ε × ω)} {e : ε} {o : ω} (hrun : Run step Always s tr m)
    (hstep : step m e = some (m', o)) :
    EachStep step P s (tr ++ [(e, o)]) ↔ EachStep step P s tr ∧ P m e m' := by
  constructor
  · intro h
    refine ⟨?_, h tr e o [] m m' rfl hrun hstep⟩
    rintro past e' o' rest m₁ m₂ rfl hpast hstep'
    exact h past e' o' (rest ++ [(e, o)]) m₁ m₂ (by simp) hpast hstep'
  · rintro ⟨hall, hlast⟩ past e' o' rest m₁ m₂ htr hpast hstep'
    rcases concat_eq_append_cons htr with ⟨rfl, hsame, -⟩ | ⟨rest', -, hbefore⟩
    · cases hsame
      obtain rfl := hpast.eq_of_trace hrun
      rw [hstep] at hstep'
      cases hstep'
      exact hlast
    · exact hall past e' o' rest' m₁ m₂ hbefore hpast hstep'

/-- Runs the events one after the other, while the condition is met, and collects what
the steps show. -/
def exec (step : σ → ε → Option (σ × ω)) (G : σ → ε → Prop) [∀ s e, Decidable (G s e)] :
    σ → List ε → Option (σ × List ω)
  | s, [] => some (s, [])
  | s, e :: es =>
    if G s e then
      match step s e with
      | none => none
      | some (s', o) =>
        match exec step G s' es with
        | none => none
        | some (s'', os) => some (s'', o :: os)
    else none

theorem Run.of_exec {step : σ → ε → Option (σ × ω)} {G : σ → ε → Prop}
    [∀ s e, Decidable (G s e)] {s s' : σ} {es : List ε} {os : List ω}
    (h : exec step G s es = some (s', os)) : Run step G s (es.zip os) s' := by
  induction es generalizing s os with
  | nil =>
    simp only [exec, Option.some.injEq, Prod.mk.injEq] at h
    obtain ⟨rfl, rfl⟩ := h
    exact .nil _
  | cons e es ih =>
    unfold exec at h
    split at h
    · rename_i hG
      split at h
      · cases h
      · rename_i s1 o hs
        split at h
        · cases h
        · rename_i s2 os' hrest
          simp only [Option.some.injEq, Prod.mk.injEq] at h
          obtain ⟨rfl, rfl⟩ := h
          exact .cons hG hs (ih hrest)
    · cases h

end Transition

import Mathlib.Logic.Basic

/-!
# Objects that answer alike

An object performs one call after the other: `perform s c` is its next state and its answer, and
`none` if the call does not come to an end. `Refines` is the rule for one call, `Refines.answers` is
what follows for all of them: where every call is admitted, the object answers as its specification
does. Two objects that refine one specification give the same answers (`Refines.agree`).
-/

namespace Transition

variable {σ σ' τ γ α : Type*}

/-- The state after calls and the answers to them. -/
def performs (perform : σ → γ → Option (σ × α)) (s : σ) : List γ → Option (σ × List α)
  | [] => some (s, [])
  | c :: cs =>
    match perform s c with
    | none => none
    | some (s', a) => (performs perform s' cs).map fun r => (r.1, a :: r.2)

variable {perform : σ → γ → Option (σ × α)} {perform' : σ' → γ → Option (σ' × α)}
  {spec : τ → γ → τ × α} {ok : τ → γ → Prop} {rep : σ → τ → Prop} {rep' : σ' → τ → Prop}

/-- Each call is admitted in the state of the specification before it. -/
def Admitted (spec : τ → γ → τ × α) (ok : τ → γ → Prop) (t : τ) : List γ → Prop
  | [] => True
  | c :: cs => ok t c ∧ Admitted spec ok (spec t c).1 cs

instance decidableAdmitted [∀ t c, Decidable (ok t c)] :
    (t : τ) → (cs : List γ) → Decidable (Admitted spec ok t cs)
  | _, [] => .isTrue trivial
  | t, c :: cs =>
    match (inferInstance : Decidable (ok t c)), decidableAdmitted (spec t c).1 cs with
    | .isTrue h, .isTrue hs => .isTrue ⟨h, hs⟩
    | .isFalse h, _ => .isFalse fun hc => h hc.1
    | _, .isFalse hs => .isFalse fun hc => hs hc.2

/-- The states and the answers of a specification. -/
def specified (spec : τ → γ → τ × α) (t : τ) : List γ → τ × List α
  | [] => (t, [])
  | c :: cs =>
    let rest := specified spec (spec t c).1 cs
    (rest.1, (spec t c).2 :: rest.2)

/-- An admitted call ends, is answered as specified, and leaves states that belong together. -/
def Refines (perform : σ → γ → Option (σ × α)) (spec : τ → γ → τ × α) (ok : τ → γ → Prop)
    (rep : σ → τ → Prop) : Prop :=
  ∀ s t c, rep s t → ok t c → ∃ s', perform s c = some (s', (spec t c).2) ∧ rep s' (spec t c).1

/-- **Refinement rule.** All calls end and are answered as specified. -/
theorem Refines.answers (h : Refines perform spec ok rep) {cs : List γ} {s : σ} {t : τ}
    (hrep : rep s t) (hok : Admitted spec ok t cs) :
    ∃ s', performs perform s cs = some (s', (specified spec t cs).2) ∧
      rep s' (specified spec t cs).1 := by
  induction cs generalizing s t with
  | nil => exact ⟨s, rfl, hrep⟩
  | cons c cs ih =>
    obtain ⟨s₁, hperform, hrep₁⟩ := h s t c hrep hok.1
    obtain ⟨s', hrest, hrep'⟩ := ih hrep₁ hok.2
    refine ⟨s', ?_, hrep'⟩
    simp only [performs, hperform, hrest, Option.map_some, specified]

/-- Two objects that refine one specification give the same answers. -/
theorem Refines.agree (h : Refines perform spec ok rep) (h' : Refines perform' spec ok rep')
    {cs : List γ} {s : σ} {s' : σ'} {t : τ} (hrep : rep s t) (hrep' : rep' s' t)
    (hok : Admitted spec ok t cs) :
    ∃ r r' answers, performs perform s cs = some (r, answers) ∧
      performs perform' s' cs = some (r', answers) := by
  obtain ⟨r, hr, -⟩ := h.answers hrep hok
  obtain ⟨r', hr', -⟩ := h'.answers hrep' hok
  exact ⟨r, r', _, hr, hr'⟩

end Transition

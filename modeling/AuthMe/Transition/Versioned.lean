import AuthMe.Transition.Run

/-!
# Views with a version

What is shown of a resource has a version. `Succeeds o o'` says that `o'` can come after `o`: a
resource that is gone stays away, the version does not go down, and what is shown of one version is
one thing. A step that keeps this is kept by runs (`Run.succeeds`).
-/

namespace Transition

variable {ρ : Type*}

/-- Of two views of a resource, the second one has a higher version or shows the same. -/
def Later (o o' : Option (Nat × ρ)) : Prop :=
  ∀ v r v' r', o = some (v, r) → o' = some (v', r') → v ≤ v' ∧ (v = v' → r = r')

structure Succeeds (o o' : Option (Nat × ρ)) : Prop where
  gone : o = none → o' = none
  later : Later o o'

namespace Succeeds

variable {o o' o'' : Option (Nat × ρ)}

theorem refl (o : Option (Nat × ρ)) : Succeeds o o := by
  refine ⟨fun h => h, ?_⟩
  intro v r v' r' h h'
  cases h.symm.trans h'
  exact ⟨Nat.le_refl _, fun _ => rfl⟩

theorem trans (h : Succeeds o o') (h' : Succeeds o' o'') : Succeeds o o'' := by
  refine ⟨fun hnone => h'.gone (h.gone hnone), ?_⟩
  intro v r w t ho ho''
  cases hmid : o' with
  | none =>
    rw [h'.gone hmid] at ho''
    cases ho''
  | some mid =>
    obtain ⟨hle, heq⟩ := h.later v r mid.1 mid.2 ho hmid
    obtain ⟨hle', heq'⟩ := h'.later mid.1 mid.2 w t hmid ho''
    refine ⟨Nat.le_trans hle hle', ?_⟩
    intro hvw
    rw [heq (by omega), heq' (by omega)]

/-- The resource is gone. -/
theorem none (o : Option (Nat × ρ)) : Succeeds o .none := by
  refine ⟨fun _ => rfl, ?_⟩
  intro v r v' r' _ h
  cases h

/-- The resource is changed to one with a higher version, or shows the same. -/
theorem some {v v' : Nat} {r r' : ρ} (hle : v ≤ v') (heq : v = v' → r = r') :
    Succeeds (.some (v, r)) (.some (v', r')) := by
  refine ⟨fun h => (nomatch h), ?_⟩
  intro w t w' t' h h'
  cases h
  cases h'
  exact ⟨hle, heq⟩

end Succeeds

variable {σ ε ω : Type*} {step : σ → ε → Option (σ × ω)} {G : σ → ε → Prop}

/-- **Version rule.** From a state in which the resource is known, a run leads to views that come
after it, if every step does. -/
theorem Run.succeeds (view : σ → Option (Nat × ρ)) (Known : σ → Prop)
    (hstep : ∀ s e s' o, Known s → G s e → step s e = some (s', o) →
      Known s' ∧ Succeeds (view s) (view s'))
    {s s' : σ} {tr : List (ε × ω)} (h : Run step G s tr s') (hs : Known s) :
    Known s' ∧ Succeeds (view s) (view s') :=
  Run.relates (R := fun s s' => Known s → Known s' ∧ Succeeds (view s) (view s'))
    (fun _ hs => ⟨hs, .refl _⟩)
    (fun _ _ _ h h' hs => ⟨(h' (h hs).1).1, (h hs).2.trans (h' (h hs).1).2⟩)
    (fun s e s' o hG hs' hs => hstep s e s' o hs hG hs') h hs

end Transition

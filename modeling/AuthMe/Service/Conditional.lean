import AuthMe.Service.Pool
import AuthMe.Transition.Versioned

/-!
# Writes under a condition

A call reads a resource with its version, and writes later, under the condition that the version is
still the one that it has read. `Versioned` says what this needs of the service: whatever is done to
its store, a resource that is known is gone, or has a higher version, or shows the same.

* `Versioned.logged`: how the entries of a log follow each other.
* `Versioned.made`: how two entries of a run follow each other.
* `Succeeds.between`: what is read before a write, under the version that the write finds, is what
  the write finds.
-/

namespace Transition.Succeeds

variable {ρ : Type*} {o o' o'' : Option (Nat × ρ)}

/-- Two views under one version show the same, and so does every view between them. -/
theorem between (h : Succeeds o o') (h' : Succeeds o' o'') {v : Nat} {r r' : ρ}
    (ho : o = .some (v, r)) (ho'' : o'' = .some (v, r')) :
    o' = .some (v, r) ∧ o'' = .some (v, r) := by
  cases hmid : o' with
  | none =>
    rw [h'.gone hmid] at ho''
    cases ho''
  | some mid =>
    obtain ⟨hle, heq⟩ := h.later v r mid.1 mid.2 ho hmid
    obtain ⟨hle', heq'⟩ := h'.later mid.1 mid.2 v r' hmid ho''
    have hversion : v = mid.1 := by omega
    have hr : r = mid.2 := heq hversion
    have hr' : mid.2 = r' := heq' hversion.symm
    refine ⟨?_, ?_⟩
    · rw [hversion, hr]
    · rw [ho'', ← hr', ← hr]

end Transition.Succeeds

namespace Service

open Transition (Run Succeeds)

variable {I : Interface} {S Q A C E κ ρ : Type}

/-- What has happened to the store: the resources that were known have not come back, and none has
been changed under its version. -/
structure Kept (Inv : S → Prop) (Known : κ → S → Prop) (view : κ → S → Option (Nat × ρ))
    (s s' : S) : Prop where
  inv : Inv s'
  known : ∀ k, Known k s → Known k s'
  succeeds : ∀ k, Known k s → Succeeds (view k s) (view k s')

/-- What the answers and the changes from outside keep. -/
structure Versioned (V : Service I S Q A C E) (Ok : S → E → Prop) (Inv : S → Prop)
    (Known : κ → S → Prop) (view : κ → S → Option (Nat × ρ)) : Prop where
  known : ∀ {k s x}, Inv s → view k s = some x → Known k s
  answer : ∀ {s c op res s'}, Inv s → V.answer s c op = some (res, s') → Kept Inv Known view s s'
  change : ∀ {s e s'}, Inv s → Ok s e → V.change s e = some s' → Kept Inv Known view s s'

/-- The changes from outside are admitted. -/
def Admits (Ok : S → E → Prop) (p : Pool I S Q A) : Event Q C E → Prop
  | .change e => Ok p.store e
  | _ => True

variable {Inv : S → Prop} {Known : κ → S → Prop} {view : κ → S → Option (Nat × ρ)} {s s' s'' : S}

theorem Kept.refl (h : Inv s) : Kept Inv Known view s s :=
  ⟨h, fun _ hk => hk, fun _ _ => .refl _⟩

theorem Kept.trans (h : Kept Inv Known view s s') (h' : Kept Inv Known view s' s'') :
    Kept Inv Known view s s'' :=
  ⟨h'.inv, fun k hk => h'.known k (h.known k hk),
    fun k hk => (h.succeeds k hk).trans (h'.succeeds k (h.known k hk))⟩

namespace Versioned

variable {V : Service I S Q A C E} {Ok : S → E → Prop} {p p' : Pool I S Q A}
  {tr : List (Event Q C E × Output I S)}

theorem step_kept (h : Versioned V Ok Inv Known view) {e : Event Q C E} {o : Output I S}
    (hp : Inv p.store) (hG : Admits Ok p e) (hstep : step V p e = some (p', o)) :
    Kept Inv Known view p.store p'.store := by
  cases step_move hstep with
  | start r => exact .refl hp
  | reply _ _ hanswer => exact h.answer hp hanswer
  | change hchange => exact h.change hp hG hchange

theorem run_kept (h : Versioned V Ok Inv Known view) (hrun : Run (step V) (Admits Ok) p tr p')
    (hp : Inv p.store) : Kept Inv Known view p.store p'.store := by
  induction hrun with
  | nil => exact .refl hp
  | cons hG hstep _ ih =>
    have hfirst := h.step_kept hp hG hstep
    exact hfirst.trans (ih hfirst.inv)

/-- The run, where the invariant is part of the condition. -/
theorem run_inv (h : Versioned V Ok Inv Known view) (hrun : Run (step V) (Admits Ok) p tr p')
    (hp : Inv p.store) : Run (step V) (fun p e => Inv p.store ∧ Admits Ok p e) p tr p' := by
  induction hrun with
  | nil => exact .nil _
  | cons hG hstep _ ih =>
    exact .cons ⟨hp, hG⟩ hstep (ih (h.step_kept hp hG hstep).inv)

/-- **Log rule.** The entries of a log are in the order of the log, and so is what they have found;
what has been found is kept until now. -/
theorem logged (h : Versioned V Ok Inv Known view)
    (hrun : Run (step V) (Admits Ok) (.initial s) tr p) (hs : Inv s) {n : Nat} {c : Call I S Q A}
    (hc : p.calls n = some c) :
    (∀ x ∈ c.log, Inv x.before ∧ Kept Inv Known view x.after p.store) ∧
      c.log.Pairwise fun w x => Kept Inv Known view x.after w.before := by
  have hall := Run.stable (J := fun s c => Inv s ∧
      (∀ x ∈ c.log, Inv x.before ∧ Kept Inv Known view x.after s) ∧
        c.log.Pairwise fun w x => Kept Inv Known view x.after w.before)
    ?_ ?_ ?_ (h.run_inv hrun hs) hc
  · exact hall.2
  · rintro p r ⟨hp, -⟩
    exact ⟨hp, (fun x hx => nomatch hx), .nil⟩
  · rintro p n choice c op next res s' ⟨hp, -⟩ - - hanswer ⟨-, hlog, hpairs⟩
    have hkept := h.answer hp hanswer
    refine ⟨hkept.inv, ?_, List.pairwise_cons.mpr ⟨fun x hx => (hlog x hx).2, hpairs⟩⟩
    intro x hx
    rcases List.mem_cons.mp hx with rfl | hx
    · exact ⟨hp, .refl hkept.inv⟩
    · exact ⟨(hlog x hx).1, (hlog x hx).2.trans hkept⟩
  · rintro p n c e p' o ⟨hp, hG⟩ hstep - - ⟨-, hlog, hpairs⟩
    have hkept := h.step_kept hp hG hstep
    exact ⟨hkept.inv, fun x hx => ⟨(hlog x hx).1, (hlog x hx).2.trans hkept⟩, hpairs⟩

/-- **Trace rule.** Of two entries of a run, what the first one has left is kept until the second
one. -/
theorem made (h : Versioned V Ok Inv Known view) (hs : Inv s) {tr₁ tr₂ tr₃ : List _}
    {n₁ n₂ : Nat} {c₁ c₂ : C} {x₁ x₂ : Entry I S}
    (hrun : Run (step V) (Admits Ok) (.initial s) (tr₁ ++ (.resume n₁ c₁, .replied n₁ x₁) ::
      (tr₂ ++ (.resume n₂ c₂, .replied n₂ x₂) :: tr₃)) p) :
    (Answers V x₁ ∧ Inv x₁.before) ∧ (Answers V x₂ ∧ Inv x₂.before) ∧
      Kept Inv Known view x₁.after x₂.before := by
  have hentry : ∀ {m m' : Pool I S Q A} {n : Nat} {c : C} {x : Entry I S},
      step V m (.resume n c) = some (m', .replied n x) →
        Answers V x ∧ x.before = m.store ∧ x.after = m'.store := by
    intro m m' n c x hstep
    generalize ho : Output.replied n x = o at hstep
    cases step_move hstep with
    | reply _ _ hanswer =>
      cases ho
      exact ⟨⟨c, hanswer⟩, rfl, rfl⟩
  obtain ⟨m₁, m₁', hrun₁, -, hstep₁, hrest⟩ := hrun.split_at
  obtain ⟨m₂, m₂', hrun₂, -, hstep₂, -⟩ := hrest.split_at
  obtain ⟨hanswers₁, hbefore₁, hafter₁⟩ := hentry hstep₁
  obtain ⟨hanswers₂, hbefore₂, hafter₂⟩ := hentry hstep₂
  have hm₁ : Inv m₁.store := (h.run_kept hrun₁ hs).inv
  have hm₁' : Inv m₁'.store := (h.step_kept (e := .resume n₁ c₁) hm₁ trivial hstep₁).inv
  have hkept := h.run_kept hrun₂ hm₁'
  rw [hbefore₁, hafter₁, hbefore₂]
  exact ⟨⟨hanswers₁, hm₁⟩, ⟨hanswers₂, hkept.inv⟩, hkept⟩

end Versioned

end Service

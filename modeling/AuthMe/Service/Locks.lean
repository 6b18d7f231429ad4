import AuthMe.Service.Pool

/-!
# Locks

The calls of a service take and release locks by operations, and its store knows which locks are
taken. A call holds a lock from the operation that takes it to the one that releases it. Where a lock
is given to nobody while it is taken, and calls release what they hold, no two calls hold one lock
(`Locks.owned_run`).

* `Run.until_ended`: what every step keeps that does not end it.
-/

namespace Transition.Run

variable {σ ε ω : Type*} {step : σ → ε → Option (σ × ω)} {G : σ → ε → Prop} {s s' : σ}
  {tr : List (ε × ω)}

/-- **Until rule.** What every step keeps that does not end it holds at the end of a run, or a step
has ended it. -/
theorem until_ended {I : σ → Prop} {E : ε × ω → Prop}
    (hI : ∀ s e s' o, I s → G s e → step s e = some (s', o) → I s' ∨ E (e, o))
    (h : Run step G s tr s') (h0 : I s) : I s' ∨ ∃ x ∈ tr, E x := by
  induction h with
  | nil => exact .inl h0
  | cons hG hstep _ ih =>
    rcases hI _ _ _ _ h0 hG hstep with hnext | hends
    · rcases ih hnext with hlast | ⟨x, hx, hends⟩
      · exact .inl hlast
      · exact .inr ⟨x, List.mem_cons_of_mem _ hx, hends⟩
    · exact .inr ⟨_, List.mem_cons_self, hends⟩

end Transition.Run

namespace Service

open Transition (Run)

variable {I : Interface} {S Q A C E κ : Type}

/-- The operations that take and release locks, and the locks that are taken. -/
structure Locks (I : Interface) (S κ : Type) where
  takes : I.Op → Option κ
  releases : I.Op → Option κ
  taken : κ → S → Prop

namespace Locks

variable (L : Locks I S κ)

/-- The call with this log holds the lock. -/
def Holds (k : κ) : List (Entry I S) → Prop
  | [] => False
  | x :: log => L.takes x.op = some k ∨ Holds k log ∧ L.releases x.op ≠ some k

/-- A lock that is taken is not given away, and nothing but the operations changes what is taken. -/
structure Sound (V : Service I S Q A C E) : Prop where
  free : ∀ {s c op res s' k}, V.answer s c op = some (res, s') → L.takes op = some k → ¬L.taken k s
  answer : ∀ {s c op res s' k}, V.answer s c op = some (res, s') →
    (L.taken k s' ↔ L.takes op = some k ∨ L.taken k s ∧ L.releases op ≠ some k)
  change : ∀ {s e s' k}, V.change s e = some s' → (L.taken k s' ↔ L.taken k s)

/-- The calls release locks that they hold. -/
def Disciplined (p : Pool I S Q A) : Prop :=
  ∀ ⦃n c op next k⦄, p.calls n = some c → c.program = .await op next → L.releases op = some k →
    L.Holds k c.log

/-- A lock that a call holds is taken, and no other call holds it. -/
def Owned (p : Pool I S Q A) : Prop :=
  ∀ ⦃k n c⦄, p.calls n = some c → L.Holds k c.log → L.taken k p.store ∧
    ∀ ⦃m d⦄, p.calls m = some d → L.Holds k d.log → m = n

variable {L}

/-- A lock is held on until it is released. -/
theorem Holds.cons {k : κ} {log : List (Entry I S)} {x : Entry I S} (h : L.Holds k log)
    (hx : L.releases x.op = none) : L.Holds k (x :: log) :=
  .inr ⟨h, by simp [hx]⟩

variable {V : Service I S Q A C E} {p p' : Pool I S Q A} {e : Event Q C E} {o : Output I S}

theorem owned_initial (s : S) : L.Owned (.initial s : Pool I S Q A) := by
  intro k n c hc
  cases hc

theorem Owned.step (hL : L.Sound V) (hp : L.Owned p) (hreleases : L.Disciplined p)
    (h : Service.step V p e = some (p', o)) : L.Owned p' := by
  have hmove := step_move h
  intro k n c hc hholds
  cases hmove.became hc with
  | start _ _ hnew =>
    subst hnew
    cases hholds
  | @reply old op next res hold hprogram hanswer hnew he =>
    subst hnew
    obtain ⟨choice, hanswer⟩ := hanswer
    refine ⟨?_, fun m d hd hd' => ?_⟩
    · refine (hL.answer hanswer).mpr ?_
      rcases hholds with htakes | ⟨hholds, hkept⟩
      · exact .inl htakes
      · exact .inr ⟨(hp hold hholds).1, hkept⟩
    · cases hmove.became hd with
      | start _ _ hnew =>
        subst hnew
        cases hd'
      | reply _ _ _ _ he' =>
        obtain ⟨c₁, he⟩ := he
        obtain ⟨c₂, he'⟩ := he'
        rw [he] at he'
        cases he'
        rfl
      | same hdold _ =>
        rcases hholds with htakes | ⟨hholds, -⟩
        · exact absurd (hp hdold hd').1 (hL.free hanswer htakes)
        · exact (hp hold hholds).2 hdold hd'
  | same hold hother =>
    obtain ⟨htaken, hothers⟩ := hp hold hholds
    cases hmove with
    | start r =>
      refine ⟨htaken, fun m d hd hd' => ?_⟩
      cases (step_move h).became hd with
      | start _ _ hnew =>
        subst hnew
        cases hd'
      | reply _ _ _ _ he =>
        obtain ⟨_, he⟩ := he
        cases he
      | same hdold _ => exact hothers hdold hd'
    | @reply j choice old op next res s hj hprogram hanswer =>
      have hne : j ≠ n := by
        rintro rfl
        exact hother choice rfl
      refine ⟨(hL.answer hanswer).mpr (.inr ⟨htaken, fun hrel => ?_⟩), fun m d hd hd' => ?_⟩
      · exact hne (hothers hj (hreleases hj hprogram hrel))
      · cases (step_move h).became hd with
        | start hn _ hnew =>
          subst hnew
          cases hd'
        | @reply old' _ _ _ hdold hprogram' _ hnew he =>
          subst hnew
          obtain ⟨_, he⟩ := he
          cases he
          cases hj.symm.trans hdold
          rw [hprogram] at hprogram'
          cases hprogram'
          rcases hd' with htakes | ⟨hd', -⟩
          · exact absurd htaken (hL.free hanswer htakes)
          · exact hothers hj hd'
        | same hdold _ => exact hothers hdold hd'
    | change hchange =>
      refine ⟨(hL.change hchange).mpr htaken, fun m d hd hd' => hothers hd hd'⟩

/-- The locks in a run, where the programs release what they hold. -/
theorem owned_run {P : Q → List (Entry I S) → I.Op → Prop} {R : Q → List (Entry I S) → A → Prop}
    {G : Pool I S Q A → Event Q C E → Prop} {tr : List (Event Q C E × Output I S)} {s : S}
    (hL : L.Sound V) (hV : Spec V P R)
    (hP : ∀ {r log op k}, P r log op → L.releases op = some k → L.Holds k log)
    (h : Run (Service.step V) G (.initial s) tr p) : L.Owned p := by
  have hall : p.Obeys V P R ∧ L.Owned p := by
    refine h.invariant (I := fun p => p.Obeys V P R ∧ L.Owned p) ?_
      ⟨by rintro n c ⟨⟩, owned_initial s⟩
    rintro p e p' o ⟨hobeys, howned⟩ - hstep
    refine ⟨hV.step hobeys hstep, howned.step hL ?_ hstep⟩
    intro n c op next k hc hprogram hreleases
    have hnext := hobeys n c hc
    rw [hprogram] at hnext
    exact hP hnext.1 hreleases
  exact hall.2

end Locks

end Service

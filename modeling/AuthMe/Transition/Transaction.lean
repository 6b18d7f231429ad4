/-!
# Transactions

A transaction is a program that reads and writes a state and can fail. A statement that fails leaves
what the statements before it have done; `atomically` takes it back.

What a transaction has done when it returns is read off its statements from the last one to the
first: `bind_ok`, and `forM_ok` for a loop.
-/

/-- Programs over the state `σ` that fail with `ε`. -/
abbrev Transaction (ε σ α : Type) : Type := ExceptT ε (StateM σ) α

namespace Transaction

variable {ε σ α β : Type}

/-- The answer, and the state that is left. -/
def exec (x : Transaction ε σ α) (s : σ) : Except ε α × σ := x.run s

/-- `BEGIN`, `COMMIT`, and `ROLLBACK` after an error. -/
def atomically (x : Transaction ε σ α) : Transaction ε σ α := fun s =>
  match x.exec s with
  | (.ok a, s') => (.ok a, s')
  | (.error e, _) => (.error e, s)

/-- The errors of `x`, changed. -/
def mapError {ε' : Type} (f : ε → ε') (x : Transaction ε σ α) : Transaction ε' σ α := fun s =>
  match x.exec s with
  | (.ok a, s') => (.ok a, s')
  | (.error e, s') => (.error (f e), s')

variable {s s' : σ} {a a' : α} {b : β}

theorem pure_ok : (pure a : Transaction ε σ α).exec s = (.ok a', s') ↔ a = a' ∧ s = s' := by
  show ((.ok a, s) : Except ε α × σ) = (.ok a', s') ↔ _
  simp

theorem throw_ok {e : ε} : (throw e : Transaction ε σ α).exec s ≠ (.ok a, s') := by
  intro h
  cases h

theorem get_ok {t : σ} : (get : Transaction ε σ σ).exec s = (.ok t, s') ↔ s = t ∧ s = s' := by
  show ((.ok s, s) : Except ε σ × σ) = (.ok t, s') ↔ _
  simp

theorem modify_ok {f : σ → σ} {u : Unit} :
    (modify f : Transaction ε σ Unit).exec s = (.ok u, s') ↔ f s = s' := by
  show ((.ok (), f s) : Except ε Unit × σ) = (.ok (), s') ↔ _
  simp

/-- What a transaction of two parts has done. -/
theorem bind_ok {x : Transaction ε σ α} {f : α → Transaction ε σ β} :
    (x >>= f).exec s = (.ok b, s') ↔
      ∃ a t, x.exec s = (.ok a, t) ∧ (f a).exec t = (.ok b, s') := by
  show (match x.exec s with
    | (answer, t) => (ExceptT.bindCont f answer : StateM σ (Except ε β)) t) = (.ok b, s') ↔ _
  cases h : x.exec s with
  | mk answer t =>
    cases answer with
    | ok a =>
      constructor
      · exact fun hf => ⟨a, t, rfl, hf⟩
      · rintro ⟨a', t', heq, hf⟩
        cases heq
        exact hf
    | error e =>
      constructor
      · intro hf
        cases hf
      · rintro ⟨a', t', heq, -⟩
        cases heq

/-- A test that the transaction has passed. -/
theorem unless_ok {c : Prop} [Decidable c] {e : ε} {x : Transaction ε σ α} :
    (if c then throw e else x).exec s = (.ok a, s') ↔ ¬c ∧ x.exec s = (.ok a, s') := by
  split
  · rename_i hc
    exact ⟨fun h => absurd h throw_ok, fun h => absurd hc h.1⟩
  · rename_i hc
    exact ⟨fun h => ⟨hc, h⟩, fun h => h.2⟩

/-- What holds before a loop and is kept by each turn holds after it. -/
theorem forM_ok {f : α → Transaction ε σ PUnit} (P : List α → σ → Prop)
    (hstep : ∀ done x s s', P done s → (f x).exec s = (.ok ⟨⟩, s') → P (done ++ [x]) s')
    {l : List α} (hstart : P [] s) (h : (forM l f).exec s = (.ok ⟨⟩, s')) : P l s' := by
  have hrest : ∀ (done l : List α) (s : σ), P done s → (forM l f).exec s = (.ok ⟨⟩, s') →
      P (done ++ l) s' := by
    intro done l
    induction l generalizing done with
    | nil =>
      intro s hs hl
      rw [List.forM_nil, pure_ok] at hl
      rw [List.append_nil]
      exact hl.2 ▸ hs
    | cons x l ih =>
      intro s hs hl
      rw [List.forM_cons, bind_ok] at hl
      obtain ⟨_, t, hx, hl⟩ := hl
      have hnext := ih (done ++ [x]) t (hstep done x s t hs hx) hl
      rwa [List.append_assoc] at hnext
  exact hrest [] l s hstart h

theorem atomically_ok {x : Transaction ε σ α} :
    (atomically x).exec s = (.ok a, s') ↔ x.exec s = (.ok a, s') := by
  show (match x.exec s with
    | (.ok a, s') => (.ok a, s')
    | (.error e, _) => (.error e, s)) = ((.ok a, s') : Except ε α × σ) ↔ _
  cases h : x.exec s with
  | mk answer t =>
    cases answer with
    | ok a => simp
    | error e => simp

/-- A transaction that fails has done nothing. -/
theorem atomically_error {x : Transaction ε σ α} {e : ε}
    (h : (atomically x).exec s = (.error e, s')) : s' = s := by
  have h' : (match x.exec s with
    | (.ok a, s') => (.ok a, s')
    | (.error e, _) => (.error e, s)) = ((.error e, s') : Except ε α × σ) := h
  cases hx : x.exec s with
  | mk answer t =>
    rw [hx] at h'
    cases answer with
    | ok a => cases h'
    | error e => exact (Prod.mk.inj h').2.symm

theorem mapError_ok {ε' : Type} {f : ε → ε'} {x : Transaction ε σ α} :
    (mapError f x).exec s = (.ok a, s') ↔ x.exec s = (.ok a, s') := by
  show (match x.exec s with
    | (.ok a, s') => (.ok a, s')
    | (.error e, s') => (.error (f e), s')) = ((.ok a, s') : Except ε' α × σ) ↔ _
  cases h : x.exec s with
  | mk answer t =>
    cases answer with
    | ok a => simp
    | error e => simp

theorem mapError_error {ε' : Type} {f : ε → ε'} {x : Transaction ε σ α} {e : ε'}
    (h : (mapError f x).exec s = (.error e, s')) : ∃ e', x.exec s = (.error e', s') := by
  have h' : (match x.exec s with
    | (.ok a, s') => (.ok a, s')
    | (.error e, s') => (.error (f e), s')) = ((.error e, s') : Except ε' α × σ) := h
  cases hx : x.exec s with
  | mk answer t =>
    rw [hx] at h'
    cases answer with
    | ok a => cases h'
    | error e' => exact ⟨e', by rw [(Prod.mk.inj h').2]⟩

end Transaction

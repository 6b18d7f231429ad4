import AuthMe.Scim.Routes

/-!
# No update is lost

The handlers read a resource, compute what becomes of it, and write that later, and other requests
come between. What they rely on is that the repository compares the version. `Backend` says what a
repository has to do; then every write of every request replaces exactly the record that it was
computed from, and of two writes of a resource the later one replaces a later version.
-/

namespace AuthMe.Scim.Routes

open Service (Entry Call Pool Output Answers Versioned Kept Admits)
open Transition (Run)

variable {S C E : Type}

/-- A write leaves the next version with what the repository stores of the attributes, or no
resource. -/
def Leaves (shown : (k : ResourceType) → Uuid → S → Option (Nat × Attributes k))
    (Stores : (k : ResourceType) → Uuid → Attributes k → Attributes k → Prop) (k : ResourceType)
    (id : Uuid) (version : Nat) (s : S) : Option (Attributes k) → Prop
  | some written => ∃ attributes, shown k id s = some (version + 1, attributes) ∧
      Stores k id written attributes
  | none => shown k id s = none

/-- What the handlers rely on. -/
structure Backend (lower : LowerCase) (V : Service operations S Request Reply C E) (read : Reader)
    (Ok : S → E → Prop) (Inv : S → Prop) (Known : Uuid → S → Prop)
    (shown : (k : ResourceType) → Uuid → S → Option (Nat × Attributes k))
    (Stores : (k : ResourceType) → Uuid → Attributes k → Attributes k → Prop)
    (HasRead : List (Entry operations S) → (k : ResourceType) → Record k → Prop) : Prop where
  program : V.program = handle lower read
  reads : Reads (Answers V) read HasRead
  versioned : ∀ k, Versioned V Ok Inv Known (shown k)
  /-- A record that was read is what a write finds under its version. -/
  recalled : ∀ {k log current w attributes}, (∀ x ∈ log, Answers V x ∧ Inv x.before) →
    (w :: log).Pairwise (fun w x => Kept Inv Known (shown k) x.after w.before) →
    HasRead log k current → shown k current.id w.before = some (current.version, attributes) →
    attributes = current.attributes
  /-- A write finds the version that it expects. -/
  wrote : ∀ {k id version next x}, Answers V x → Inv x.before → Wrote k id.text version next x →
    (∃ attributes, shown k id x.before = some (version, attributes)) ∧
      Leaves shown Stores k id version x.after next
  unchanged : ∀ x, Answers V x → ¬Changes x → x.after = x.before

/-- The write has replaced the record that it was computed from. -/
def Exact (lower : LowerCase)
    (shown : (k : ResourceType) → Uuid → S → Option (Nat × Attributes k))
    (Stores : (k : ResourceType) → Uuid → Attributes k → Attributes k → Prop) (r : Request)
    (k : ResourceType) (id : String) (version : Nat) (next : Option (Attributes k))
    (x : Entry operations S) : Prop :=
  ∃ current : Record k, id = current.id.text ∧ version = current.version ∧
    shown k current.id x.before = some (current.version, current.attributes) ∧
    Decided lower r current next ∧ Leaves shown Stores k current.id current.version x.after next

/-- What a request has done. -/
structure Conditional (lower : LowerCase)
    (shown : (k : ResourceType) → Uuid → S → Option (Nat × Attributes k))
    (Stores : (k : ResourceType) → Uuid → Attributes k → Attributes k → Prop)
    (c : Call operations S Request Reply) : Prop where
  exact : ∀ x ∈ c.log, ∀ k id version next, Wrote k id version next x →
    Exact lower shown Stores c.request k id version next x
  unchanged : ∀ x ∈ c.log, ¬Changes x → x.after = x.before
  answered : ∀ reply, c.program = .done reply → reply.IsAnswer →
    c.request.method = .post ∨ c.request.method = .put ∨ c.request.method = .delete →
      ∃ x ∈ c.log, Changes x
  refused : ∀ status detail scimType, c.program = .done (.failed status detail scimType) →
    status ≠ 500 → ∀ x ∈ c.log, x.after = x.before

namespace Backend

variable {lower : LowerCase} {V : Service operations S Request Reply C E} {read : Reader}
  {Ok : S → E → Prop} {Inv : S → Prop} {Known : Uuid → S → Prop}
  {shown : (k : ResourceType) → Uuid → S → Option (Nat × Attributes k)}
  {Stores : (k : ResourceType) → Uuid → Attributes k → Attributes k → Prop}
  {HasRead : List (Entry operations S) → (k : ResourceType) → Record k → Prop} {s : S}
  {p : Pool operations S Request Reply} {tr : List (Service.Event Request C E × Output operations S)}

theorem spec (h : Backend lower V read Ok Inv Known shown Stores HasRead) :
    Service.Spec V (Allowed lower HasRead) Answered where
  obeys r := by
    rw [h.program]
    exact h.reads.obeys_handle r

/-- A write is made under the version of a record that the call has read before it. -/
theorem exact (h : Backend lower V read Ok Inv Known shown Stores HasRead)
    (hrun : Run (Service.step V) (Admits Ok) (.initial s) tr p) (hs : Inv s) {n : Nat}
    {c : Call operations S Request Reply} (hc : p.calls n = some c) {x : Entry operations S}
    (hx : x ∈ c.log) {k : ResourceType} {id : String} {version : Nat}
    {next : Option (Attributes k)} (hwrote : Wrote k id version next x) :
    Exact lower shown Stores c.request k id version next x := by
  obtain ⟨l, l', hlog⟩ := List.append_of_mem hx
  have hallowed := h.spec.performed hrun hc hlog
  have hcurrent : ∃ current : Record k, HasRead l' k current ∧ id = current.id.text ∧
      version = current.version ∧ Decided lower c.request current next := by
    cases hwrote with
    | replaced => exact hallowed
    | deleted => exact hallowed
  obtain ⟨current, hread, rfl, rfl, hdecided⟩ := hcurrent
  have hanswers := Service.Run.answers hrun hc
  obtain ⟨hfound, hpairs⟩ := (h.versioned k).logged hrun hs hc
  obtain ⟨⟨attributes, hshown⟩, hleaves⟩ := h.wrote (hanswers x hx) (hfound x hx).1 hwrote
  have hsame : attributes = current.attributes := by
    rw [hlog] at hpairs
    refine h.recalled ?_ (List.pairwise_append.mp hpairs).2.1 hread hshown
    intro y hy
    have hmem : y ∈ c.log := by
      rw [hlog]
      exact List.mem_append_right _ (List.mem_cons_of_mem _ hy)
    exact ⟨hanswers y hmem, (hfound y hmem).1⟩
  rw [hsame] at hshown
  exact ⟨current, rfl, rfl, hshown, hdecided, hleaves⟩

/-- **No lost update.** -/
theorem conditional (h : Backend lower V read Ok Inv Known shown Stores HasRead)
    (hrun : Run (Service.step V) (Admits Ok) (.initial s) tr p) (hs : Inv s) {n : Nat}
    {c : Call operations S Request Reply} (hc : p.calls n = some c) :
    Conditional lower shown Stores c := by
  have hanswers := Service.Run.answers hrun hc
  refine ⟨?_, fun x hx => h.unchanged x (hanswers x hx), ?_, ?_⟩
  · intro x hx k id version next hwrote
    exact h.exact hrun hs hc hx hwrote
  · intro reply hdone
    exact (h.spec.finished hrun hc hdone).1
  · intro status detail scimType hdone hstatus x hx
    have hrefused := (h.spec.finished hrun hc hdone).2 status detail scimType rfl hstatus x hx
    exact h.unchanged x (hanswers x hx) hrefused

/-- Of two writes of one resource, the later one has replaced a higher version. -/
theorem raised (h : Backend lower V read Ok Inv Known shown Stores HasRead) (hs : Inv s)
    {tr₁ tr₂ tr₃ : List (Service.Event Request C E × Output operations S)} {n₁ n₂ : Nat} {c₁ c₂ : C}
    {x₁ x₂ : Entry operations S}
    (hrun : Run (Service.step V) (Admits Ok) (.initial s) (tr₁ ++ (.resume n₁ c₁, .replied n₁ x₁) ::
      (tr₂ ++ (.resume n₂ c₂, .replied n₂ x₂) :: tr₃)) p)
    {k : ResourceType} {id : Uuid} {v₁ v₂ : Nat} {next₁ next₂ : Option (Attributes k)}
    (h₁ : Wrote k id.text v₁ next₁ x₁) (h₂ : Wrote k id.text v₂ next₂ x₂) : v₁ < v₂ := by
  obtain ⟨⟨hanswers₁, hbefore₁⟩, ⟨hanswers₂, hbefore₂⟩, hkept⟩ := (h.versioned k).made hs hrun
  obtain ⟨⟨a₁, hshown₁⟩, hleaves⟩ := h.wrote hanswers₁ hbefore₁ h₁
  obtain ⟨⟨a₂, hshown₂⟩, -⟩ := h.wrote hanswers₂ hbefore₂ h₂
  have hknown : Known id x₁.before := (h.versioned k).known hbefore₁ hshown₁
  obtain ⟨choice, hanswer⟩ := hanswers₁
  have hknown' : Known id x₁.after := ((h.versioned k).answer hbefore₁ hanswer).known id hknown
  have hsucceeds := hkept.succeeds id hknown'
  cases next₁ with
  | none =>
    rw [hsucceeds.gone hleaves] at hshown₂
    cases hshown₂
  | some attributes =>
    obtain ⟨a, hafter, -⟩ := hleaves
    exact (hsucceeds.later _ _ _ _ hafter hshown₂).1
end Backend

end AuthMe.Scim.Routes

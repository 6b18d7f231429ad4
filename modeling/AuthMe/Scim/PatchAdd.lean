import AuthMe.Collections.Additions
import AuthMe.Scim.PatchFrame

/-!
# Bodies that only add

To a multi-valued attribute an `add` is an addition to the list of its items: the key of an item is
the text of its `value`, with which a filter is compared, and its identity is the `value` itself, if
it is a primitive one. To another attribute an `add` is an assignment.
-/

namespace AuthMe.Scim

open Transition

/-! ## Items -/

/-- A primitive value, which a `Set` finds again. -/
inductive Primitive
  | bool (b : Bool)
  | number (text : String)
  | string (s : String)
  deriving DecidableEq

def Value.primitive? : Value → Option Primitive
  | .bool b => some (.bool b)
  | .number text => some (.number text)
  | .string s => some (.string s)
  | _ => none

/-- `String(item?.value)`. -/
def itemKey (item : Value) : Option (List Nat) := (item.get "value").text?.map Text.units

def itemIdent (item : Value) : Option Primitive := (item.get "value").primitive?

theorem Value.eq_of_primitive {v w : Value} (hv : v.primitive? ≠ none)
    (h : w.primitive? = v.primitive?) : w = v := by
  cases v <;> cases w <;> simp_all [Value.primitive?]

theorem keyOfIdent : Addition.KeyOfIdent itemKey itemIdent := by
  intro m n hsome h
  rw [itemKey, itemKey, Value.eq_of_primitive hsome h]

theorem Value.same_iff {v w : Value} (hw : w.isNullish = false) :
    v.same w = true ↔ w.primitive? ≠ none ∧ v.primitive? = w.primitive? := by
  cases v <;> cases w <;> simp_all [Value.same, Value.primitive?, Value.isNullish]

theorem Value.primitive?_of_isNullish {v : Value} (h : v.isNullish = true) :
    v.primitive? = none := by
  cases v <;> simp_all [Value.primitive?, Value.isNullish]

/-- The items that an `add` appends are the new ones. -/
theorem isAddition_eq (current : List Value) (item : Value) :
    isAddition current item = Addition.isNew itemIdent current item := by
  rw [Bool.eq_iff_iff, Addition.isNew_iff, isAddition, Bool.or_eq_true]
  cases hnull : (item.get "value").isNullish with
  | true => simp [itemIdent, Value.primitive?_of_isNullish hnull]
  | false =>
    simp only [Bool.false_eq_true, false_or, Bool.not_eq_true', List.any_eq_false,
      Bool.and_eq_true, not_and, itemIdent]
    constructor
    · intro h
      by_cases hnone : (item.get "value").primitive? = none
      · exact .inl hnone
      · right
        intro m hm heq
        have hsame := h m hm
        have hmnull : (m.get "value").isNullish = false := by
          cases hm' : (m.get "value").isNullish with
          | false => rfl
          | true => exact absurd (heq.symm.trans (Value.primitive?_of_isNullish hm')) hnone
        rw [hmnull] at hsame
        exact hsame rfl ((Value.same_iff hnull).mpr ⟨hnone, heq⟩)
    · intro h m hm _ hsame
      obtain ⟨hsome, heq⟩ := (Value.same_iff hnull).mp hsame
      exact h.resolve_left hsome m hm heq

theorem retainedItems_eq {filterValue : List Nat} {items retained : List Value}
    (h : retainedItems filterValue items = some retained) :
    retained = items.filter fun item => itemKey item ≠ some filterValue := by
  induction items generalizing retained with
  | nil =>
    cases h
    rfl
  | cons item items ih =>
    unfold retainedItems at h
    split at h
    · rename_i text rest htext hrest
      cases h
      have hkey : itemKey item = some (Text.units text) := by rw [itemKey, htext]; rfl
      rw [ih hrest, List.filter_cons, hkey]
      simp only [ne_eq, Option.some.injEq, decide_not, Bool.not_eq_true', decide_eq_false_iff_not]
    · cases h

/-! ## Assignments -/

/-- An `add` of items, as an addition to the list. -/
def Change.addition {α : Type} (c : Change α) : Addition Value (Option (List Nat)) :=
  match c.path.filter with
  | none => .plain c.value.toItems
  | some (_, filterValue) => .matching (some filterValue) c.value.toItems

section Adds

variable {α : Type} [DecidableEq α] {isMulti : α → Bool}

/-- The assignments of an attribute. -/
def changesOf (cs : List (Change α)) (a : α) : List (Change α) := cs.filter fun c => c.path.attr = a

/-- The items of a multi-valued attribute. -/
def itemsOf (r : Resource α) (a : α) : List Value := ((r a).getD .undefined).items

theorem setMulti_add {r r' : Resource α} {c : Change α} (hop : c.op = .add)
    (h : setMulti r c.path c.op c.value = .ok r') :
    r' = Function.update r c.path.attr
      (some (.array (Addition.add itemKey itemIdent (itemsOf r c.path.attr) c.addition))) := by
  unfold setMulti at h
  rw [hop] at h
  dsimp only at h
  unfold Change.addition
  split at h
  · rename_i filterAttribute filterValue hfilter
    rw [hfilter]
    split at h
    · cases h
    · split at h
      · cases h
      · rename_i retained hretained
        rw [if_neg (by simp), if_neg (by decide)] at h
        cases h
        rw [Addition.add, retainedItems_eq hretained]
        rfl
  · rename_i hfilter
    rw [hfilter]
    split at h
    · cases h
    · cases h
      rw [Addition.add, itemsOf, funext (isAddition_eq _)]

/-- What an `add` makes of a simple or complex attribute. -/
def addSimple (v : Option Value) (c : Change α) : Option Value :=
  match c.path.subAttribute with
  | some sub => some ((v.getD .undefined).set sub c.value)
  | none => some c.value

theorem setSimple_add {r r' : Resource α} {c : Change α} (hop : c.op = .add)
    (h : setSimple r c.path c.op c.value = .ok r') :
    r' = Function.update r c.path.attr (addSimple (r c.path.attr) c) := by
  unfold setSimple at h
  rw [hop] at h
  split at h
  · cases h
  · split at h
    · rename_i sub hsub
      rw [if_neg (by decide)] at h
      cases h
      unfold addSimple
      rw [hsub]
    · rename_i hsub
      rw [if_neg (by decide)] at h
      cases h
      unfold addSimple
      rw [hsub]

/-- The additions to a multi-valued attribute, in order. -/
def additionsOf (cs : List (Change α)) (a : α) : List (Addition Value (Option (List Nat))) :=
  (changesOf cs a).map Change.addition

variable {r r' : Resource α} {cs : List (Change α)} {a : α}

theorem changesOf_cons_self (c : Change α) (cs : List (Change α)) :
    changesOf (c :: cs) c.path.attr = c :: changesOf cs c.path.attr :=
  List.filter_cons_of_pos (by simp)

theorem changesOf_cons_of_ne {c : Change α} (h : a ≠ c.path.attr) :
    changesOf (c :: cs) a = changesOf cs a :=
  List.filter_cons_of_neg (by simpa using Ne.symm h)

/-- An attribute without assignments stays as it is. -/
theorem patched_of_no_changes (h : Patched isMulti r cs r') (hno : changesOf cs a = []) :
    r' a = r a := by
  rw [changesOf, List.filter_eq_nil_iff] at hno
  refine h.invariant (I := fun m => m a = r a) ?_ rfl
  intro c hc m m' hset hm
  have hne : a ≠ c.path.attr := by
    intro heq
    exact hno c hc (by simp [heq])
  rw [setAttribute_other hset hne, hm]

/-- A multi-valued attribute after a body that only adds. -/
theorem patched_multi (hadd : ∀ c ∈ cs, c.op = .add) (ha : isMulti a = true)
    (h : Patched isMulti r cs r') :
    itemsOf r' a = Addition.addAll itemKey itemIdent (itemsOf r a) (additionsOf cs a) ∧
      (changesOf cs a ≠ [] → r' a = some (.array (itemsOf r' a))) := by
  induction cs generalizing r with
  | nil =>
    cases h
    exact ⟨rfl, fun h => absurd rfl h⟩
  | cons c cs ih =>
    obtain ⟨m, hset, hrest⟩ := patched_cons.mp h
    have hstep := ih (fun d hd => hadd d (List.mem_cons_of_mem _ hd)) hrest
    by_cases hattr : a = c.path.attr
    · subst hattr
      rw [setAttribute, if_pos ha] at hset
      have hm := setMulti_add (hadd c List.mem_cons_self) hset
      have hitems : itemsOf m c.path.attr =
          Addition.add itemKey itemIdent (itemsOf r c.path.attr) c.addition := by
        rw [hm, itemsOf, Function.update_self]
        rfl
      rw [additionsOf, changesOf_cons_self, List.map_cons, Addition.addAll_cons, ← hitems]
      refine ⟨hstep.1, fun _ => ?_⟩
      by_cases hno : changesOf cs c.path.attr = []
      · have hsame := patched_of_no_changes hrest hno
        rw [hsame, itemsOf, hsame, hm, Function.update_self]
        rfl
      · exact hstep.2 hno
    · have hsame := setAttribute_other hset hattr
      rw [additionsOf, changesOf_cons_of_ne hattr, itemsOf, itemsOf, ← hsame]
      exact hstep

/-- Another attribute after a body that only adds. -/
theorem patched_simple (hadd : ∀ c ∈ cs, c.op = .add) (ha : isMulti a = false)
    (h : Patched isMulti r cs r') : r' a = (changesOf cs a).foldl addSimple (r a) := by
  induction cs generalizing r with
  | nil =>
    cases h
    rfl
  | cons c cs ih =>
    obtain ⟨m, hset, hrest⟩ := patched_cons.mp h
    rw [ih (fun d hd => hadd d (List.mem_cons_of_mem _ hd)) hrest]
    by_cases hattr : a = c.path.attr
    · subst hattr
      rw [setAttribute, if_neg (by rw [ha]; decide)] at hset
      rw [changesOf_cons_self, List.foldl_cons, setSimple_add (hadd c List.mem_cons_self) hset,
        Function.update_self]
    · rw [changesOf_cons_of_ne hattr, setAttribute_other hset hattr]

end Adds

/-! ## The second time -/

section Twice

variable {α : Type} {cs : List (Change α)}

/-- After an assignment of the whole attribute it does not matter what was there. -/
theorem foldl_addSimple_of_whole {c : Change α} (hc : c ∈ cs) (hwhole : c.path.subAttribute = none)
    (v w : Option Value) : cs.foldl addSimple v = cs.foldl addSimple w := by
  obtain ⟨past, rest, rfl⟩ := List.append_of_mem hc
  rw [List.foldl_append, List.foldl_append, List.foldl_cons, List.foldl_cons, addSimple, addSimple,
    hwhole]

/-- Assignments of sub-attributes put them into the object. -/
theorem foldl_addSimple_of_subs (hsubs : ∀ c ∈ cs, c.path.subAttribute ≠ none)
    (entries : List (String × Value)) :
    cs.foldl addSimple (some (.object entries)) = some (.object (OrderedMap.putAll
      (cs.filterMap fun c => c.path.subAttribute.map fun sub => (sub, c.value)) entries)) := by
  induction cs generalizing entries with
  | nil => rfl
  | cons c cs ih =>
    obtain ⟨sub, hsub⟩ := Option.ne_none_iff_exists'.mp (hsubs c List.mem_cons_self)
    have hstep : addSimple (some (.object entries)) c =
        some (.object (OrderedMap.put sub c.value entries)) := by
      rw [addSimple, hsub]
      rfl
    rw [List.foldl_cons, hstep, ih fun d hd => hsubs d (List.mem_cons_of_mem _ hd),
      List.filterMap_cons, hsub]
    rfl

theorem foldl_addSimple_twice (v : Option Value) :
    cs.foldl addSimple (cs.foldl addSimple v) = cs.foldl addSimple v := by
  by_cases hwhole : ∃ c ∈ cs, c.path.subAttribute = none
  · obtain ⟨c, hc, hpath⟩ := hwhole
    exact foldl_addSimple_of_whole hc hpath _ _
  · push Not at hwhole
    cases cs with
    | nil => rfl
    | cons c cs =>
      obtain ⟨sub, hsub⟩ := Option.ne_none_iff_exists'.mp (hwhole c List.mem_cons_self)
      have hobject : ∃ entries, (c :: cs).foldl addSimple v =
          (c :: cs).foldl addSimple (some (.object entries)) := by
        cases v with
        | none => exact ⟨[], by simp [addSimple, hsub, Value.set, OrderedMap.put]⟩
        | some v =>
          cases v with
          | object entries => exact ⟨entries, rfl⟩
          | _ => exact ⟨[], by simp [addSimple, hsub, Value.set, OrderedMap.put]⟩
      obtain ⟨entries, hobject⟩ := hobject
      rw [hobject, foldl_addSimple_of_subs hwhole, foldl_addSimple_of_subs hwhole,
        OrderedMap.putAll_putAll]

variable [DecidableEq α] {isMulti : α → Bool} {resource first second : Resource α}

/-- A sense in which a list contains an item. A list that contains one has an item with its
identity. -/
structure Containment where
  Holds : List Value → Value → Prop
  ident : ∀ {items item}, Holds items item → ∃ other ∈ items, itemIdent other = itemIdent item

/-- The list has the item itself. -/
def Containment.whole : Containment where
  Holds items item := item ∈ items
  ident h := ⟨_, h, rfl⟩

/-- The list has an item with its `value`, which is what an `add` compares. -/
def Containment.byValue : Containment where
  Holds items item := itemIdent item ≠ none ∧ ∃ other ∈ items, itemIdent other = itemIdent item
  ident h := h.2

theorem Containment.byValue_of_whole {items : List Value} {item : Value}
    (h : whole.Holds items item) (hident : itemIdent item ≠ none) : byValue.Holds items item :=
  ⟨hident, item, h, rfl⟩

/-- The assignment adds items to a multi-valued attribute that contains them, with or without a
filter. -/
def AddsContained (isMulti : α → Bool) (sense : Containment) (before : Resource α) (c : Change α) :
    Prop :=
  c.op = .add ∧ isMulti c.path.attr = true ∧
    ∀ item ∈ c.value.toItems, sense.Holds (itemsOf before c.path.attr) item

/-- An `add` of what the attribute contains is no change. -/
def KeepsContained (isMulti : α → Bool) (sense : Containment) (before : Resource α) (c : Change α)
    (after : Resource α) : Prop :=
  AddsContained isMulti sense before c → after = before

/-- An `add` of what the attribute contains finds it in place, in a list. -/
def FindsContained (isMulti : α → Bool) (sense : Containment) (before : Resource α) (c : Change α)
    (_ : Resource α) : Prop :=
  AddsContained isMulti sense before c →
    before c.path.attr = some (.array (itemsOf before c.path.attr)) ∧
      Addition.InPlace itemKey itemIdent (itemsOf before c.path.attr) c.addition

/-- The additions to every multi-valued attribute are stable. -/
def StableAdds (isMulti : α → Bool) (cs : List (Change α)) (resource : Resource α) : Prop :=
  ∀ a, isMulti a = true → Addition.Stable itemKey itemIdent (itemsOf resource a) (additionsOf cs a)

theorem second_eq_iff (hadd : ∀ c ∈ cs, c.op = .add) (hfirst : Patched isMulti resource cs first)
    (hsecond : Patched isMulti first cs second) :
    second = first ↔ StableAdds isMulti cs resource := by
  constructor
  · rintro rfl a ha
    rw [← Addition.addAll_addAll_iff keyOfIdent, ← (patched_multi hadd ha hfirst).1]
    exact (patched_multi hadd ha hsecond).1.symm
  · intro hstable
    funext a
    cases ha : isMulti a with
    | true =>
      by_cases hno : changesOf cs a = []
      · exact patched_of_no_changes hsecond hno
      · obtain ⟨hitems, harray⟩ := patched_multi hadd ha hfirst
        obtain ⟨hitems', harray'⟩ := patched_multi hadd ha hsecond
        rw [harray hno, harray' hno, hitems', hitems,
          (Addition.addAll_addAll_iff keyOfIdent).mpr (hstable a ha)]
    | false =>
      have hvalue := patched_simple hadd ha hfirst
      rw [patched_simple hadd ha hsecond, hvalue, foldl_addSimple_twice]

omit [DecidableEq α] in
theorem Change.addition_items (c : Change α) : c.addition.items = c.value.toItems := by
  unfold Change.addition
  split <;> rfl

theorem keepsContained_iff {sense : Containment} {r r' : Resource α} {c : Change α}
    (h : setAttribute isMulti r c.path c.op c.value = .ok r') :
    KeepsContained isMulti sense r c r' ↔ FindsContained isMulti sense r c r' := by
  refine forall_congr' fun ⟨hop, hmulti, hitems⟩ => ?_
  rw [setAttribute, if_pos hmulti] at h
  rw [setMulti_add hop h, Function.update_eq_self_iff]
  have hthere : ∀ n ∈ c.addition.items,
      ∃ m ∈ itemsOf r c.path.attr, itemIdent m = itemIdent n := by
    intro n hn
    rw [c.addition_items] at hn
    exact sense.ident (hitems n hn)
  rw [← Addition.add_eq_self_iff hthere]
  constructor
  · intro heq
    have hsame : itemsOf r c.path.attr =
        Addition.add itemKey itemIdent (itemsOf r c.path.attr) c.addition := by
      conv_lhs => rw [itemsOf, ← heq]
      rfl
    rw [← hsame] at heq
    exact ⟨heq.symm, hsame.symm⟩
  · rintro ⟨harray, hsame⟩
    rw [hsame, harray]

/-- Where each `add` of what is there is no change, a body of them is none. -/
theorem eq_of_keepsContained {sense : Containment}
    (h : Patched isMulti resource cs first)
    (hkeeps : EachStep (patchStep isMulti) (KeepsContained isMulti sense) resource (patchTrace cs))
    (hall : ∀ c ∈ cs, AddsContained isMulti sense resource c) : first = resource := by
  refine Run.along (I := fun m past =>
    EachStep (patchStep isMulti) (KeepsContained isMulti sense) resource past →
      (∀ x ∈ past, AddsContained isMulti sense resource x.1) → m = resource) ?_ h
    (fun _ _ => rfl) hkeeps (by simpa [patchTrace] using hall)
  intro m past c m' o hrun ih _ hstep hkeeps hall
  have hconcat := (EachStep.concat hrun hstep).mp hkeeps
  have hm := ih hconcat.1 fun x hx => hall x (List.mem_append_left _ hx)
  rw [← hm]
  refine hconcat.2 ?_
  rw [hm]
  exact hall (c, o) (by simp)

variable {lower : LowerCase} {canonical : String → Option α} {body : Value}

/-- **Repeated additions.** A body that only adds is accepted twice. It gives the same resource the
second time, and each of its additions of what an attribute contains at its turn is no change (so
that a body of such additions is none), if and only if the additions are stable and find what is
contained in place. -/
theorem add_twice (sense : Containment) (hadd : ∀ c ∈ changes lower canonical body, c.op = .add)
    (hfirst : applyPatch lower canonical isMulti resource body = .ok first)
    (hsecond : applyPatch lower canonical isMulti first body = .ok second) :
    (second = first ∧
        EachStep (patchStep isMulti) (KeepsContained isMulti sense) resource
          (patchTrace (changes lower canonical body)) ∧
        ((∀ c ∈ changes lower canonical body, AddsContained isMulti sense resource c) →
          first = resource)) ↔
      (StableAdds isMulti (changes lower canonical body) resource ∧
        EachStep (patchStep isMulti) (FindsContained isMulti sense) resource
          (patchTrace (changes lower canonical body))) := by
  have hrun := patched_of_applyPatch hfirst
  have hsteps : EachStep (patchStep isMulti) (KeepsContained isMulti sense) resource
      (patchTrace (changes lower canonical body)) ↔
      EachStep (patchStep isMulti) (FindsContained isMulti sense) resource
        (patchTrace (changes lower canonical body)) :=
    EachStep.congr fun _ _ _ _ hstep => keepsContained_iff (patchStep_eq_some.mp hstep)
  rw [second_eq_iff hadd hrun (patched_of_applyPatch hsecond), ← hsteps]
  exact and_congr_right fun _ => and_iff_left_of_imp fun hkeeps => eq_of_keepsContained hrun hkeeps

end Twice

/-! ### E-mail addresses -/

/-- A User with these e-mail addresses. -/
def withEmails (emails : List Value) : Resource UserAttribute
  | .multi .emails => some (.array emails)
  | _ => none

def workAddress : Value := .object [("value", .string "ada@example.test")]

def homeAddress : Value := .object [("value", .string "home@example.test")]

def unnamedItem : Value := .object [("display", .string "Ada")]

/-- An address is put in the place of itself. -/
def againWorkAddress : Value :=
  oneOperation "add" "emails[value eq \"ada@example.test\"]" workAddress

theorem changes_againWorkAddress :
    changes .onlyAscii (canonicalUserAttribute .onlyAscii) againWorkAddress =
      [⟨⟨.multi .emails, some ("value", Text.units "ada@example.test"), none⟩, .add,
        workAddress⟩] := rfl

theorem add_twice_workAddress :
    applyUserPatch .onlyAscii (withEmails [homeAddress, workAddress]) againWorkAddress =
      .ok (withEmails [homeAddress, workAddress]) := by
  have happly : ∃ first second, applyPatch .onlyAscii (canonicalUserAttribute .onlyAscii)
      UserAttribute.isMulti (withEmails [homeAddress, workAddress]) againWorkAddress = .ok first ∧
      applyPatch .onlyAscii (canonicalUserAttribute .onlyAscii) UserAttribute.isMulti first
        againWorkAddress = .ok second := ⟨_, _, rfl, rfl⟩
  obtain ⟨first, second, hfirst, hsecond⟩ := happly
  have htwice := (add_twice .byValue ?_ hfirst hsecond).mpr ⟨?_, ?_⟩
  · have hsame := htwice.2.2 ?_
    · rw [hsame] at hfirst
      exact hfirst
    · rw [changes_againWorkAddress]
      intro c hc
      rw [List.mem_singleton.mp hc]
      refine ⟨rfl, rfl, ?_⟩
      intro item hitem
      rw [List.mem_singleton.mp hitem]
      have hmem : workAddress ∈ itemsOf (withEmails [homeAddress, workAddress]) (.multi .emails) :=
        List.mem_cons_of_mem _ List.mem_cons_self
      exact Containment.byValue_of_whole hmem (by decide)
  · rw [changes_againWorkAddress]
    intro c hc
    rw [List.mem_singleton.mp hc]
  · rw [changes_againWorkAddress]
    intro a _
    by_cases ha : a = .multi .emails
    · subst ha
      refine ⟨?_, ?_⟩
      · intro b hb n hn
        rw [List.mem_singleton.mp hb] at hn ⊢
        rw [List.mem_singleton.mp hn]
        exact .inl List.mem_cons_self
      · intro past before n after rest heq
        cases past with
        | nil => cases heq
        | cons b past =>
          have hlength := congrArg List.length heq
          simp [additionsOf, changesOf] at hlength
    · have hnone : additionsOf [(⟨⟨.multi .emails, some ("value", Text.units "ada@example.test"),
          none⟩, .add, workAddress⟩ : Change UserAttribute)] a = [] := by
        rw [additionsOf, changesOf_cons_of_ne ha]
        rfl
      rw [hnone]
      exact ⟨by simp, by simp⟩
  · rw [changes_againWorkAddress]
    intro past c o rest m m' htr hrun hstep _
    cases past with
    | cons x past =>
      have hlength := congrArg List.length htr
      simp [patchTrace] at hlength
    | nil =>
      cases htr
      cases hrun
      refine ⟨rfl, [homeAddress], rfl, ?_, ?_⟩
      · intro n hn
        rw [List.mem_singleton.mp hn]
        decide
      · intro n hn
        rw [List.mem_singleton.mp hn]
        rfl

/-- An item without `value` is there twice the second time, and an address that is put in the place
of itself comes after the others. -/
theorem add_twice_duplicates :
    (∃ first second,
      applyUserPatch .onlyAscii (withEmails []) (oneOperation "add" "emails" unnamedItem) =
        .ok first ∧
      applyUserPatch .onlyAscii first (oneOperation "add" "emails" unnamedItem) = .ok second ∧
      first (.multi .emails) = some (.array [unnamedItem]) ∧
      second (.multi .emails) = some (.array [unnamedItem, unnamedItem])) ∧
    ∃ first,
      applyUserPatch .onlyAscii (withEmails [workAddress, homeAddress]) againWorkAddress =
        .ok first ∧
      first (.multi .emails) = some (.array [homeAddress, workAddress]) :=
  ⟨⟨_, _, rfl, rfl, rfl, rfl⟩, _, rfl, rfl⟩

end AuthMe.Scim

import Mathlib.Data.List.Basic

/-!
# Additions to a list

Items are added to a list in two ways: plainly, where an item is left out if the list has one with
the same identity, and in the place of the items with a given key, which are removed first. An item
without identity is always added; items with one identity have one key.

`add_eq_self_iff` says when an addition of what the list has changes nothing (`InPlace`), and
`addAll_addAll_iff` for which sequences of additions the second time changes nothing (`Stable`). A key
that one of the additions names is *named*: in the end the items with named keys depend on the
additions only (`named_addAll`), the other items are never removed (`other_addAll`),
and the list is what was there without the named items, followed by what was added
(`addAll_eq_append`).
-/

/-- Items that are added to a list; `matching` replaces those with the key. -/
inductive Addition (ι κ : Type*)
  | plain (items : List ι)
  | matching (k : κ) (items : List ι)

namespace Addition

variable {ι κ π : Type*}

def items : Addition ι κ → List ι
  | plain ns => ns
  | matching _ ns => ns

/-- The keys that the additions name. -/
def keys : List (Addition ι κ) → List κ
  | [] => []
  | plain _ :: as => keys as
  | matching k _ :: as => k :: keys as

theorem keys_append (as bs : List (Addition ι κ)) : keys (as ++ bs) = keys as ++ keys bs := by
  induction as with
  | nil => rfl
  | cons a as ih =>
    cases a with
    | plain ns => exact ih
    | matching k ns => exact congrArg (k :: ·) ih

theorem keys_cons (a : Addition ι κ) (as : List (Addition ι κ)) :
    keys (a :: as) = keys [a] ++ keys as := keys_append [a] as

/-- The item is added plainly, and it has an identity. -/
def IsPlain (ident : ι → Option π) (a : Addition ι κ) (n : ι) : Prop :=
  a = plain a.items ∧ ident n ≠ none

variable [DecidableEq κ] [DecidableEq π]

section Lists

variable (key : ι → κ) (ident : ι → Option π)

/-- The list has no item with the identity of this one. -/
def isNew (xs : List ι) (n : ι) : Bool :=
  decide (ident n = none ∨ ∀ m ∈ xs, ident m ≠ ident n)

def add (xs : List ι) : Addition ι κ → List ι
  | plain ns => xs ++ ns.filter (isNew ident xs)
  | matching k ns => (xs.filter fun x => key x ≠ k) ++ ns

def addAll (xs : List ι) (as : List (Addition ι κ)) : List ι := as.foldl (add key ident) xs

/-- The addition finds its items where it would put them: each of those that are added plainly has an
identity, and those that are added in the place of others are the last ones and the only ones with the
key. -/
def InPlace (xs : List ι) : Addition ι κ → Prop
  | plain ns => ∀ n ∈ ns, ident n ≠ none
  | matching k ns => ∃ kept, xs = kept ++ ns ∧ (∀ m ∈ kept, key m ≠ k) ∧ ∀ n ∈ ns, key n = k

/-- The second time the additions change nothing. An item is added plainly and has an identity,
unless its key is named. Nothing with a new identity and no named key is added after an item that
stays and has a named key. -/
structure Stable (xs : List ι) (as : List (Addition ι κ)) : Prop where
  plainly : ∀ a ∈ as, ∀ n ∈ a.items, key n ∈ keys as ∨ IsPlain ident a n
  ordered : ∀ past before n after rest, as = past ++ plain (before ++ n :: after) :: rest →
    key n ∉ keys as → (∀ m ∈ xs, ident m ≠ ident n) →
    (∀ a ∈ past, ∀ m ∈ a.items, ident m ≠ ident n) →
    (∀ b ∈ before, key b ∈ keys as → key b ∈ keys rest) ∧
      ∀ past₁ a past₂, past = past₁ ++ a :: past₂ → ∀ b ∈ a.items, key b ∈ keys as →
        key b ∈ keys past₂ ∨ key b ∈ keys rest

end Lists

variable {key : ι → κ} {ident : ι → Option π}

theorem isNew_iff {xs : List ι} {n : ι} :
    isNew ident xs n = true ↔ ident n = none ∨ ∀ m ∈ xs, ident m ≠ ident n := by
  rw [isNew, decide_eq_true_eq]

theorem addAll_cons (xs : List ι) (a : Addition ι κ) (as : List (Addition ι κ)) :
    addAll key ident xs (a :: as) = addAll key ident (add key ident xs a) as := rfl

theorem addAll_append (xs : List ι) (as bs : List (Addition ι κ)) :
    addAll key ident xs (as ++ bs) = addAll key ident (addAll key ident xs as) bs :=
  List.foldl_append

/-! ## What is left of the list -/

variable (key ident) in
/-- What was there without the named items, followed by what was added. -/
theorem addAll_eq_append (xs : List ι) (as : List (Addition ι κ)) :
    ∃ added, addAll key ident xs as = (xs.filter fun x => key x ∉ keys as) ++ added := by
  induction as generalizing xs with
  | nil => exact ⟨[], by simp [addAll, keys]⟩
  | cons a as ih =>
    obtain ⟨added, h⟩ := ih (add key ident xs a)
    rw [addAll_cons, h]
    cases a with
    | plain ns =>
      refine ⟨(ns.filter (isNew ident xs)).filter (fun x => key x ∉ keys as) ++ added, ?_⟩
      rw [add, List.filter_append, List.append_assoc]
      rfl
    | matching k ns =>
      refine ⟨ns.filter (fun x => key x ∉ keys as) ++ added, ?_⟩
      rw [add, List.filter_append, List.filter_filter, List.append_assoc]
      congr 1
      apply List.filter_congr
      intro x _
      simp only [keys, List.mem_cons, not_or, Bool.decide_and]
      exact Bool.and_comm _ _

/-! ## Items with named keys -/

/-- Items with one identity have one key. -/
def KeyOfIdent (key : ι → κ) (ident : ι → Option π) : Prop :=
  ∀ m n, ident n ≠ none → ident m = ident n → key m = key n

variable (hkey : KeyOfIdent key ident)
include hkey

/-- Where two lists agree about the named items that no later addition removes, they end with the
same named items. -/
theorem named_of_agree {V : List κ} {as : List (Addition ι κ)} {xs ys : List ι}
    (h : (xs.filter fun x => key x ∈ V ∧ key x ∉ keys as) =
      ys.filter fun x => key x ∈ V ∧ key x ∉ keys as) :
    ((addAll key ident xs as).filter fun x => key x ∈ V) =
      (addAll key ident ys as).filter fun x => key x ∈ V := by
  induction as generalizing xs ys with
  | nil => simpa [addAll, keys] using h
  | cons a as ih =>
    rw [addAll_cons, addAll_cons]
    apply ih
    cases a with
    | plain ns =>
      rw [add, add, List.filter_append, List.filter_append, List.filter_filter, List.filter_filter]
      congr 1
      apply List.filter_congr
      intro n _
      by_cases hn : key n ∈ V ∧ key n ∉ keys as
      · have hside (zs zs' : List ι)
            (hz : (zs.filter fun x => key x ∈ V ∧ key x ∉ keys as) =
              zs'.filter fun x => key x ∈ V ∧ key x ∉ keys as)
            (hnew : ident n = none ∨ ∀ m ∈ zs, ident m ≠ ident n) :
            ident n = none ∨ ∀ m ∈ zs', ident m ≠ ident n := by
          rcases hnew with hnone | hnew
          · exact .inl hnone
          · by_cases hnone : ident n = none
            · exact .inl hnone
            · right
              intro m hm heq
              have hmem : m ∈ zs'.filter fun x => key x ∈ V ∧ key x ∉ keys as := by
                rw [List.mem_filter, hkey m n hnone heq]
                exact ⟨hm, by simpa using hn⟩
              rw [← hz] at hmem
              exact hnew m (List.mem_of_mem_filter hmem) heq
        have hnew : isNew ident xs n = isNew ident ys n := by
          rw [Bool.eq_iff_iff, isNew_iff, isNew_iff]
          exact ⟨hside xs ys h, hside ys xs h.symm⟩
        rw [hnew]
      · rw [decide_eq_false hn, Bool.false_and, Bool.false_and]
    | matching k ns =>
      rw [add, add, List.filter_append, List.filter_append, List.filter_filter, List.filter_filter]
      congr 1
      have hsame (zs : List ι) : (zs.filter fun x =>
          decide (key x ∈ V ∧ key x ∉ keys as) && decide (key x ≠ k)) =
          zs.filter fun x => key x ∈ V ∧ key x ∉ keys (matching k ns :: as) := by
        apply List.filter_congr
        intro x _
        simp only [keys, List.mem_cons, not_or, Bool.decide_and, Bool.and_assoc]
        rw [Bool.and_comm (decide (key x ∉ keys as))]
      rw [hsame, hsame]
      exact h

/-- In the end the named items depend on the additions only. -/
theorem named_addAll (xs ys : List ι) (as : List (Addition ι κ)) :
    ((addAll key ident xs as).filter fun x => key x ∈ keys as) =
      (addAll key ident ys as).filter fun x => key x ∈ keys as := by
  apply named_of_agree hkey
  have hnone (zs : List ι) : (zs.filter fun x => key x ∈ keys as ∧ key x ∉ keys as) = [] := by
    rw [List.filter_eq_nil_iff]
    intro x _
    simp
  rw [hnone, hnone]

omit hkey

/-! ## Where an item comes from -/

/-- An item whose key is not named stays. -/
theorem mem_addAll {xs : List ι} {as : List (Addition ι κ)} {m : ι} (hm : m ∈ xs)
    (hkeys : key m ∉ keys as) : m ∈ addAll key ident xs as := by
  obtain ⟨added, h⟩ := addAll_eq_append key ident xs as
  rw [h]
  exact List.mem_append_left _ (List.mem_filter.mpr ⟨hm, by simpa using hkeys⟩)

/-- An item was there and no addition has removed it, or an addition has added it and no later one
has removed it. -/
theorem mem_addAll_source {xs : List ι} {as : List (Addition ι κ)} {m : ι}
    (hm : m ∈ addAll key ident xs as) : m ∈ xs ∧ key m ∉ keys as ∨
      ∃ past a rest, as = past ++ a :: rest ∧ m ∈ a.items ∧ key m ∉ keys rest := by
  induction as generalizing xs with
  | nil => exact .inl ⟨hm, by simp [keys]⟩
  | cons a as ih =>
    rcases ih hm with ⟨hmem, hnot⟩ | ⟨past, b, rest, rfl, hmem, hnot⟩
    · cases a with
      | plain ns =>
        rcases List.mem_append.mp hmem with hmem | hmem
        · exact .inl ⟨hmem, hnot⟩
        · exact .inr ⟨[], plain ns, as, rfl, List.mem_of_mem_filter hmem, hnot⟩
      | matching k ns =>
        rcases List.mem_append.mp hmem with hmem | hmem
        · rw [List.mem_filter, decide_eq_true_eq] at hmem
          left
          refine ⟨hmem.1, ?_⟩
          rw [keys, List.mem_cons, not_or]
          exact ⟨hmem.2, hnot⟩
        · exact .inr ⟨[], matching k ns, as, rfl, hmem, hnot⟩
    · exact .inr ⟨a :: past, b, rest, rfl, hmem, hnot⟩

/-- An addition of what the list has changes nothing if and only if it finds it in place. -/
theorem add_eq_self_iff {xs : List ι} {a : Addition ι κ}
    (h : ∀ n ∈ a.items, ∃ m ∈ xs, ident m = ident n) :
    add key ident xs a = xs ↔ InPlace key ident xs a := by
  cases a with
  | plain ns =>
    rw [add, List.append_right_eq_self, List.filter_eq_nil_iff]
    refine forall₂_congr fun n hn => ?_
    obtain ⟨m, hm, heq⟩ := h n hn
    rw [isNew_iff, not_or]
    exact and_iff_left fun hno => hno m hm heq
  | matching k ns =>
    constructor
    · intro heq
      refine ⟨xs.filter fun x => key x ≠ k, heq.symm, ?_, ?_⟩
      · intro m hm
        simpa using (List.mem_filter.mp hm).2
      · -- what the filter keeps is there already without the items that were added
        have hnone : (ns.filter fun x => key x ≠ k) = [] := by
          have hkept := congrArg (List.filter fun x => key x ≠ k) heq
          rw [add, List.filter_append, List.filter_filter] at hkept
          simpa using hkept
        intro n hn
        simpa using List.filter_eq_nil_iff.mp hnone n hn
    · rintro ⟨kept, rfl, hkept, hns⟩
      have hall : (kept.filter fun x => key x ≠ k) = kept := by
        rw [List.filter_eq_self]
        simpa using hkept
      have hnone : (ns.filter fun x => key x ≠ k) = [] := by
        rw [List.filter_eq_nil_iff]
        simpa using hns
      rw [add, List.filter_append, hall, hnone, List.append_nil]

variable (key ident) in
/-- After a plain addition of an item the list has its identity. -/
theorem exists_ident_add (xs : List ι) {ns : List ι} {n : ι} (hn : n ∈ ns) :
    ∃ m ∈ add key ident xs (plain ns), ident m = ident n := by
  by_cases hnew : isNew ident xs n = true
  · exact ⟨n, List.mem_append_right _ (List.mem_filter.mpr ⟨hn, hnew⟩), rfl⟩
  · rw [isNew_iff, not_or] at hnew
    have hno := hnew.2
    push Not at hno
    obtain ⟨m, hm, heq⟩ := hno
    exact ⟨m, List.mem_append_left _ hm, heq⟩

/-- After an addition of an item the list has its key. -/
theorem exists_key_add (hkey : KeyOfIdent key ident) (xs : List ι) {a : Addition ι κ} {n : ι}
    (hn : n ∈ a.items) : ∃ m ∈ add key ident xs a, key m = key n := by
  cases a with
  | plain ns =>
    by_cases hnone : ident n = none
    · refine ⟨n, List.mem_append_right _ (List.mem_filter.mpr ⟨hn, ?_⟩), rfl⟩
      exact isNew_iff.mpr (.inl hnone)
    · obtain ⟨m, hm, heq⟩ := exists_ident_add key ident xs hn
      exact ⟨m, hm, hkey m n hnone heq⟩
  | matching k ns => exact ⟨n, List.mem_append_right _ hn, rfl⟩

/-! ## Other items -/

section Others

variable {V : List κ}

variable (key ident) in
/-- The number of items without a named key does not fall. -/
theorem others_le {a : Addition ι κ} (ha : ∀ k ∈ keys [a], k ∈ V) (xs : List ι) :
    (xs.filter fun x => key x ∉ V).length ≤
      ((add key ident xs a).filter fun x => key x ∉ V).length := by
  cases a with
  | plain ns =>
    rw [add, List.filter_append, List.length_append]
    omega
  | matching k ns =>
    have hk : k ∈ V := ha k List.mem_cons_self
    have hsame : ((xs.filter fun x => key x ≠ k).filter fun x => key x ∉ V) =
        xs.filter fun x => key x ∉ V := by
      rw [List.filter_filter]
      apply List.filter_congr
      intro x _
      by_cases hx : key x ∈ V
      · simp [hx]
      · have hne : key x ≠ k := fun heq => hx (heq ▸ hk)
        simp [hx, hne]
    rw [add, List.filter_append, List.length_append, hsame]
    omega

/-- It rises with an item that is not added plainly, or without an identity. -/
theorem others_lt {a : Addition ι κ} (ha : ∀ k ∈ keys [a], k ∈ V) (xs : List ι) {n : ι}
    (hn : n ∈ a.items) (hother : key n ∉ V) (hno : ¬ IsPlain ident a n) :
    (xs.filter fun x => key x ∉ V).length <
      ((add key ident xs a).filter fun x => key x ∉ V).length := by
  cases a with
  | plain ns =>
    have hnone : ident n = none := by
      by_contra hsome
      exact hno ⟨rfl, hsome⟩
    have hmem : n ∈ (ns.filter (isNew ident xs)).filter fun x => key x ∉ V :=
      List.mem_filter.mpr ⟨List.mem_filter.mpr ⟨hn, isNew_iff.mpr (.inl hnone)⟩,
        by simpa using hother⟩
    have hpos := List.length_pos_of_mem hmem
    rw [add, List.filter_append, List.length_append]
    omega
  | matching k ns =>
    have hle := others_le key ident (a := matching k []) ha xs
    have hmem : n ∈ ns.filter fun x => key x ∉ V :=
      List.mem_filter.mpr ⟨hn, by simpa using hother⟩
    have hpos := List.length_pos_of_mem hmem
    rw [add, List.append_nil] at hle
    rw [add, List.filter_append, List.length_append]
    omega

variable (key ident) in
theorem others_addAll_le {as : List (Addition ι κ)} (has : ∀ k ∈ keys as, k ∈ V) (xs : List ι) :
    (xs.filter fun x => key x ∉ V).length ≤
      ((addAll key ident xs as).filter fun x => key x ∉ V).length := by
  induction as generalizing xs with
  | nil => exact Nat.le_refl _
  | cons a as ih =>
    have hsplit := keys_cons a as
    have hfirst := others_le key ident (a := a)
      (fun k hk => has k (hsplit ▸ List.mem_append_left _ hk)) xs
    have hrest := ih (fun k hk => has k (hsplit ▸ List.mem_append_right _ hk))
      (add key ident xs a)
    exact Nat.le_trans hfirst hrest

/-- If the items without a named key do not become more, all of them are added plainly. -/
theorem plainly_of_others {as : List (Addition ι κ)} (has : ∀ k ∈ keys as, k ∈ V) {xs : List ι}
    (h : ((addAll key ident xs as).filter fun x => key x ∉ V) = xs.filter fun x => key x ∉ V) :
    ∀ a ∈ as, ∀ n ∈ a.items, key n ∈ V ∨ IsPlain ident a n := by
  intro a ha n hn
  by_contra hno
  rw [not_or] at hno
  obtain ⟨past, rest, rfl⟩ := List.append_of_mem ha
  simp only [keys_append, List.mem_append] at has
  rw [keys_cons] at has
  simp only [List.mem_append] at has
  have hpast := others_addAll_le key ident (fun k hk => has k (.inl hk)) xs
  have hstep := others_lt (fun k hk => has k (.inr (.inl hk))) (addAll key ident xs past) hn
    hno.1 hno.2
  have hrest := others_addAll_le key ident (fun k hk => has k (.inr (.inr hk)))
    (add key ident (addAll key ident xs past) a)
  have hlength := congrArg List.length h
  rw [addAll_append, addAll_cons] at hlength
  omega

/-- Items that are added plainly are left out if the list has their identities. -/
theorem others_of_plainly (hkey : KeyOfIdent key ident) {as : List (Addition ι κ)}
    (has : ∀ k ∈ keys as, k ∈ V) {xs : List ι}
    (hplainly : ∀ a ∈ as, ∀ n ∈ a.items, key n ∈ V ∨ IsPlain ident a n)
    (hthere : ∀ a ∈ as, ∀ n ∈ a.items, key n ∈ V ∨ ∃ m ∈ xs, ident m = ident n) :
    ((addAll key ident xs as).filter fun x => key x ∉ V) = xs.filter fun x => key x ∉ V := by
  induction as generalizing xs with
  | nil => rfl
  | cons a as ih =>
    have hsplit := keys_cons a as
    have hstep : ((add key ident xs a).filter fun x => key x ∉ V) =
        xs.filter fun x => key x ∉ V := by
      cases a with
      | plain ns =>
        have hnone : ((ns.filter (isNew ident xs)).filter fun x => key x ∉ V) = [] := by
          rw [List.filter_filter, List.filter_eq_nil_iff]
          intro n hn
          rw [Bool.and_eq_true, decide_eq_true_eq, isNew_iff]
          rintro ⟨hother, hnew⟩
          have hplain := (hplainly _ List.mem_cons_self n hn).resolve_left hother
          obtain ⟨m, hm, heq⟩ := (hthere _ List.mem_cons_self n hn).resolve_left hother
          exact (hnew.resolve_left hplain.2) m hm heq
        rw [add, List.filter_append, hnone, List.append_nil]
      | matching k ns =>
        have hnone : (ns.filter fun x => key x ∉ V) = [] := by
          rw [List.filter_eq_nil_iff]
          intro n hn
          rw [decide_eq_true_eq, not_not]
          refine (hplainly _ List.mem_cons_self n hn).resolve_right ?_
          rintro ⟨hplain, -⟩
          cases hplain
        rw [add, List.filter_append, hnone, List.append_nil, List.filter_filter]
        apply List.filter_congr
        intro x _
        by_cases hx : key x ∈ V
        · simp [hx]
        · have hne : key x ≠ k := fun heq => hx (heq ▸ has k List.mem_cons_self)
          simp [hx, hne]
    rw [addAll_cons, ← hstep]
    apply ih (fun k hk => has k (hsplit ▸ List.mem_append_right _ hk))
      (fun b hb => hplainly b (List.mem_cons_of_mem _ hb))
    intro b hb n hn
    by_cases hother : key n ∈ V
    · exact .inl hother
    · right
      have hplain := (hplainly b (List.mem_cons_of_mem _ hb) n hn).resolve_left hother
      obtain ⟨m, hm, heq⟩ := (hthere b (List.mem_cons_of_mem _ hb) n hn).resolve_left hother
      have hm' : m ∈ xs.filter fun x => key x ∉ V :=
        List.mem_filter.mpr ⟨hm, by simpa [hkey m n hplain.2 heq] using hother⟩
      rw [← hstep] at hm'
      exact ⟨m, List.mem_of_mem_filter hm', heq⟩

end Others

/-! ## The order of the items -/

/-- A list whose items that satisfy `p` come first. -/
theorem pairwise_iff_append_filter {p : ι → Bool} {l : List ι} :
    l.Pairwise (fun a b => p b = true → p a = true) ↔ l = l.filter p ++ l.filter fun x => !p x := by
  constructor
  · intro h
    induction l with
    | nil => rfl
    | cons a l ih =>
      rw [List.pairwise_cons] at h
      cases ha : p a with
      | true =>
        rw [List.filter_cons_of_pos ha, List.filter_cons_of_neg (by simp [ha]), List.cons_append,
          ← ih h.2]
      | false =>
        have hnone : l.filter p = [] := by
          rw [List.filter_eq_nil_iff]
          intro b hb hpb
          rw [h.1 b hb hpb] at ha
          cases ha
        have hrest := ih h.2
        rw [hnone, List.nil_append] at hrest
        rw [List.filter_cons_of_neg (by simp [ha]), hnone, List.nil_append,
          List.filter_cons_of_pos (by simp [ha]), ← hrest]
  · intro h
    rw [h, List.pairwise_append]
    refine ⟨?_, ?_, ?_⟩
    · apply List.pairwise_of_forall_mem_list
      intro a ha _ _ _
      exact (List.mem_filter.mp ha).2
    · apply List.pairwise_of_forall_mem_list
      intro _ _ b hb hpb
      have hno := (List.mem_filter.mp hb).2
      rw [hpb] at hno
      cases hno
    · intro a ha _ _ _
      exact (List.mem_filter.mp ha).2

/-- A list that was appended to the items of another one that satisfy `p`, and that has the same
items that do not. -/
theorem eq_iff_of_append {p : ι → Bool} {l l' added : List ι} (happend : l' = l.filter p ++ added)
    (hrest : (l'.filter fun x => !p x) = l.filter fun x => !p x) :
    l' = l ↔ l'.filter p = l.filter p ∧ l = l.filter p ++ l.filter fun x => !p x := by
  have hnone : ((l.filter p).filter fun x => !p x) = [] := by
    rw [List.filter_eq_nil_iff]
    intro a ha
    rw [(List.mem_filter.mp ha).2]
    decide
  have hadded : l'.filter p = l.filter p → added = l.filter fun x => !p x := by
    intro h
    have hsame : (l.filter p).filter p = l.filter p := by
      rw [List.filter_filter]
      simp
    rw [happend, List.filter_append, hsame] at h
    have hempty : added.filter p = [] := List.append_right_eq_self.mp h
    rw [happend, List.filter_append, hnone, List.nil_append] at hrest
    rw [← hrest, eq_comm, List.filter_eq_self]
    intro a ha
    have hno := List.filter_eq_nil_iff.mp hempty a ha
    simpa using hno
  constructor
  · rintro rfl
    refine ⟨rfl, ?_⟩
    rw [← hadded rfl]
    exact happend
  · rintro ⟨hsame, hsorted⟩
    rw [hsorted, happend, hadded hsame]

theorem pairwise_iff_before {R : ι → ι → Prop} {l : List ι} :
    l.Pairwise R ↔ ∀ before n after, l = before ++ n :: after → ∀ b ∈ before, R b n := by
  constructor
  · rintro h before n after rfl b hb
    exact (List.pairwise_append.mp h).2.2 b hb n List.mem_cons_self
  · intro h
    induction l with
    | nil => exact List.Pairwise.nil
    | cons a l ih =>
      rw [List.pairwise_cons]
      constructor
      · intro n hn
        obtain ⟨before, after, rfl⟩ := List.append_of_mem hn
        exact h (a :: before) n after rfl a List.mem_cons_self
      · apply ih
        rintro before n after rfl b hb
        exact h (a :: before) n after rfl b (List.mem_cons_of_mem _ hb)

section Order

variable {V : List κ}

/-- Where an item without a named key is added, no item with a named key stays before it. -/
def OrderedSteps (key : ι → κ) (ident : ι → Option π) (V : List κ) (xs : List ι)
    (as : List (Addition ι κ)) : Prop :=
  ∀ past before n after rest, as = past ++ plain (before ++ n :: after) :: rest → key n ∉ V →
    isNew ident (addAll key ident xs past) n = true →
    (∀ m ∈ addAll key ident xs past, key m ∈ V → key m ∈ keys rest) ∧
      ∀ b ∈ before, isNew ident (addAll key ident xs past) b = true → key b ∈ V → key b ∈ keys rest

/-- The first step, and the steps after it. -/
theorem orderedSteps_cons {xs : List ι} {a : Addition ι κ} {as : List (Addition ι κ)} :
    OrderedSteps key ident V xs (a :: as) ↔
      (∀ before n after, a = plain (before ++ n :: after) → key n ∉ V →
        isNew ident xs n = true →
        (∀ m ∈ xs, key m ∈ V → key m ∈ keys as) ∧
          ∀ b ∈ before, isNew ident xs b = true → key b ∈ V → key b ∈ keys as) ∧
      OrderedSteps key ident V (add key ident xs a) as := by
  constructor
  · intro h
    constructor
    · rintro before n after rfl
      exact h [] before n after as rfl
    · rintro past before n after rest rfl
      exact h (a :: past) before n after rest rfl
  · rintro ⟨hfirst, hrest⟩ past before n after rest heq
    cases past with
    | nil =>
      cases heq
      exact hfirst before n after rfl
    | cons b past =>
      cases heq
      exact hrest past before n after rest rfl

/-- The other items come first in the end if they do in what stays and in every step. -/
theorem pairwise_addAll {as : List (Addition ι κ)} (has : ∀ k ∈ keys as, k ∈ V)
    (hplainly : ∀ a ∈ as, ∀ n ∈ a.items, key n ∈ V ∨ IsPlain ident a n) (xs : List ι) :
    (addAll key ident xs as).Pairwise (fun a b => key b ∉ V → key a ∉ V) ↔
      (xs.filter fun x => key x ∉ keys as).Pairwise (fun a b => key b ∉ V → key a ∉ V) ∧
        OrderedSteps key ident V xs as := by
  induction as generalizing xs with
  | nil =>
    have hsteps : OrderedSteps key ident V xs [] := by
      intro past before n after rest heq
      cases past <;> cases heq
    have hall : (xs.filter fun x => key x ∉ keys ([] : List (Addition ι κ))) = xs := by
      rw [List.filter_eq_self]
      simp [keys]
    rw [hall]
    exact (and_iff_left hsteps).symm
  | cons a as ih =>
    have hsplit := keys_cons a as
    have hrest : ∀ k ∈ keys as, k ∈ V := fun k hk => has k (hsplit ▸ List.mem_append_right _ hk)
    rw [addAll_cons, ih hrest (fun b hb => hplainly b (List.mem_cons_of_mem _ hb)),
      orderedSteps_cons, ← and_assoc]
    refine and_congr_left fun _ => ?_
    cases a with
    | plain ns =>
      rw [add, List.filter_append, List.pairwise_append]
      refine and_congr_right fun _ => ?_
      rw [List.filter_filter, List.pairwise_filter, pairwise_iff_before]
      constructor
      · rintro ⟨hinside, hcross⟩ before n after heq hother hnew
        cases heq
        have hn : decide (key n ∉ keys as) = true :=
          decide_eq_true fun hk => hother (hrest _ hk)
        constructor
        · intro m hm hnamed
          by_contra hstays
          exact hcross m (List.mem_filter.mpr ⟨hm, by simpa using hstays⟩) n
            (List.mem_filter.mpr ⟨by simp, by rw [hn, hnew]; rfl⟩) hother hnamed
        · intro b hb hbnew hnamed
          by_contra hstays
          exact hinside before n after rfl b hb (by rw [hbnew]; simpa using hstays)
            (by rw [hn, hnew]; rfl) hother hnamed
      · intro h
        constructor
        · rintro before n after rfl b hb hbstays hnstays hother hnamed
          rw [Bool.and_eq_true, decide_eq_true_eq] at hbstays hnstays
          exact hbstays.1 ((h before n after rfl hother hnstays.2).2 b hb hbstays.2 hnamed)
        · intro m hm n hn hother hnamed
          rw [List.mem_filter, decide_eq_true_eq] at hm
          rw [List.mem_filter, Bool.and_eq_true, decide_eq_true_eq] at hn
          obtain ⟨before, after, rfl⟩ := List.append_of_mem hn.1
          exact hm.2 ((h before n after rfl hother hn.2.2).1 m hm.1 hnamed)
    | matching k ns =>
      have hnamed : ∀ n ∈ ns, key n ∈ V := by
        intro n hn
        refine (hplainly _ List.mem_cons_self n hn).resolve_right ?_
        rintro ⟨hplain, -⟩
        cases hplain
      have hfirst : ∀ before n after, matching k ns = plain (before ++ n :: after) → key n ∉ V →
          isNew ident xs n = true →
          (∀ m ∈ xs, key m ∈ V → key m ∈ keys as) ∧
            ∀ b ∈ before, isNew ident xs b = true → key b ∈ V → key b ∈ keys as := by
        intro _ _ _ heq
        cases heq
      have hkeep : ((xs.filter fun x => key x ≠ k).filter fun x => key x ∉ keys as) =
          xs.filter fun x => key x ∉ keys (matching k ns :: as) := by
        rw [List.filter_filter]
        apply List.filter_congr
        intro x _
        simp only [keys, List.mem_cons, not_or, Bool.decide_and]
        exact Bool.and_comm _ _
      rw [add, List.filter_append, List.pairwise_append, hkeep, and_iff_left hfirst]
      refine and_iff_left ⟨?_, ?_⟩
      · apply List.pairwise_of_forall_mem_list
        intro _ _ b hb hother
        exact absurd (hnamed b (List.mem_of_mem_filter hb)) hother
      · intro _ _ b hb hother
        exact absurd (hnamed b (List.mem_of_mem_filter hb)) hother

end Order

/-! ## The second time -/

section Stability

variable {xs : List ι} {as : List (Addition ι κ)}

/-- Where items without a named key are added plainly, one of them is new if its identity was
neither there nor added before. -/
theorem isNew_addAll_iff (hkey : KeyOfIdent key ident) {V : List κ} {past : List (Addition ι κ)}
    (hpast : ∀ k ∈ keys past, k ∈ V)
    (hplainly : ∀ a ∈ past, ∀ n ∈ a.items, key n ∈ V ∨ IsPlain ident a n) {n : ι}
    (hother : key n ∉ V) (hsome : ident n ≠ none) :
    isNew ident (addAll key ident xs past) n = true ↔ (∀ m ∈ xs, ident m ≠ ident n) ∧
      ∀ a ∈ past, ∀ m ∈ a.items, ident m ≠ ident n := by
  rw [isNew_iff, or_iff_right hsome]
  constructor
  · intro h
    constructor
    · intro m hm heq
      have hm' : key m ∉ keys past := by
        rw [hkey m n hsome heq]
        exact fun hk => hother (hpast _ hk)
      exact h m (mem_addAll hm hm') heq
    · intro a ha m hm heq
      have hmkey : key m = key n := hkey m n hsome heq
      have hplain := (hplainly a ha m hm).resolve_left (hmkey ▸ hother)
      obtain ⟨before, rest, rfl⟩ := List.append_of_mem ha
      have hm' : m ∈ a.items := hm
      rw [IsPlain] at hplain
      obtain ⟨m', hmem, heq'⟩ := exists_ident_add key ident (addAll key ident xs before) hm'
      rw [← hplain.1] at hmem
      have hrest : key m' ∉ keys rest := by
        rw [hkey m' n hsome (heq'.trans heq)]
        intro hk
        apply hother (hpast _ _)
        rw [keys_append, keys_cons]
        exact List.mem_append_right _ (List.mem_append_right _ hk)
      refine h m' ?_ (heq'.trans heq)
      rw [addAll_append, addAll_cons]
      exact mem_addAll hmem hrest
  · rintro ⟨hxs, hitems⟩ m hm
    rcases mem_addAll_source hm with ⟨hm, -⟩ | ⟨before, a, rest, rfl, hm, -⟩
    · exact hxs m hm
    · exact hitems a (by simp) m hm

/-- The condition on the steps, read off the additions. -/
theorem orderedSteps_iff (hkey : KeyOfIdent key ident)
    (hplainly : ∀ a ∈ as, ∀ n ∈ a.items, key n ∈ keys as ∨ IsPlain ident a n) :
    OrderedSteps key ident (keys as) xs as ↔
      ∀ past before n after rest, as = past ++ plain (before ++ n :: after) :: rest →
        key n ∉ keys as → (∀ m ∈ xs, ident m ≠ ident n) →
        (∀ a ∈ past, ∀ m ∈ a.items, ident m ≠ ident n) →
        (∀ b ∈ before, key b ∈ keys as → key b ∈ keys rest) ∧
          ∀ past₁ a past₂, past = past₁ ++ a :: past₂ → ∀ b ∈ a.items, key b ∈ keys as →
            key b ∈ keys past₂ ∨ key b ∈ keys rest := by
  refine forall₄_congr fun past before n after => ?_
  refine forall₃_congr fun rest heq hother => ?_
  have hsplit : keys as = keys past ++ keys rest := by
    rw [heq, keys_append]
    rfl
  have hnew : isNew ident (addAll key ident xs past) n = true ↔ _ := isNew_addAll_iff hkey
    (fun k hk => hsplit ▸ List.mem_append_left _ hk)
    (fun a ha => hplainly a (heq ▸ List.mem_append_left _ ha)) hother
    ((hplainly _ (heq ▸ List.mem_append_right _ List.mem_cons_self) n (by simp [items])).resolve_left
      hother).2
  rw [hnew, and_imp]
  refine forall₂_congr fun _ _ => ?_
  constructor
  · rintro ⟨hthere, hbefore⟩
    constructor
    · intro b hb hnamed
      by_cases hbnew : isNew ident (addAll key ident xs past) b = true
      · exact hbefore b hb hbnew hnamed
      · rw [isNew_iff, not_or] at hbnew
        obtain ⟨hsome, hno⟩ := hbnew
        push Not at hno
        obtain ⟨m, hm, hident⟩ := hno
        have hmkey := hkey m b hsome hident
        rw [← hmkey] at hnamed ⊢
        exact hthere m hm hnamed
    · rintro past₁ a past₂ rfl b hb hnamed
      by_cases hlater : key b ∈ keys past₂
      · exact .inl hlater
      · right
        obtain ⟨m, hm, hmkey⟩ := exists_key_add hkey (addAll key ident xs past₁) hb
        rw [← hmkey] at hlater hnamed ⊢
        apply hthere m _ hnamed
        rw [addAll_append, addAll_cons]
        exact mem_addAll hm hlater
  · rintro ⟨hbefore, hpast⟩
    refine ⟨?_, fun b hb _ => hbefore b hb⟩
    intro m hm hnamed
    rcases mem_addAll_source hm with ⟨-, hnot⟩ | ⟨past₁, a, past₂, rfl, hm, hnot⟩
    · rw [hsplit] at hnamed
      exact (List.mem_append.mp hnamed).resolve_left hnot
    · exact (hpast past₁ a past₂ rfl m hm hnamed).resolve_left hnot

/-- **Repetition.** The additions change nothing the second time if and only if they are stable. -/
theorem addAll_addAll_iff (hkey : KeyOfIdent key ident) :
    addAll key ident (addAll key ident xs as) as = addAll key ident xs as ↔
      Stable key ident xs as := by
  have hself : ∀ k ∈ keys as, k ∈ keys as := fun _ hk => hk
  obtain ⟨added, happend⟩ := addAll_eq_append key ident (addAll key ident xs as) as
  have hnamed : ((addAll key ident (addAll key ident xs as) as).filter
      fun x => !decide (key x ∉ keys as)) =
      (addAll key ident xs as).filter fun x => !decide (key x ∉ keys as) := by
    simpa using named_addAll hkey (addAll key ident xs as) xs as
  rw [eq_iff_of_append happend hnamed, ← pairwise_iff_append_filter]
  simp only [decide_eq_true_eq]
  have hfirst : (xs.filter fun x => key x ∉ keys as).Pairwise
      (fun a b => key b ∉ keys as → key a ∉ keys as) := by
    apply List.pairwise_of_forall_mem_list
    intro a ha _ _ _
    simpa using (List.mem_filter.mp ha).2
  have horder (hplainly : ∀ a ∈ as, ∀ n ∈ a.items, key n ∈ keys as ∨ IsPlain ident a n) :=
    ((pairwise_addAll hself hplainly xs).trans (and_iff_right hfirst)).trans
      (orderedSteps_iff hkey hplainly)
  constructor
  · rintro ⟨hothers, hpairwise⟩
    have hplainly := plainly_of_others hself hothers
    exact ⟨hplainly, (horder hplainly).mp hpairwise⟩
  · intro hstable
    refine ⟨others_of_plainly hkey hself hstable.plainly ?_, (horder hstable.plainly).mpr hstable.ordered⟩
    intro a ha n hn
    by_cases hnamed : key n ∈ keys as
    · exact .inl hnamed
    · right
      obtain ⟨hplain, hsome⟩ := (hstable.plainly a ha n hn).resolve_left hnamed
      obtain ⟨past, rest, rfl⟩ := List.append_of_mem ha
      obtain ⟨m, hm, heq⟩ := exists_ident_add key ident (addAll key ident xs past) hn
      rw [← hplain] at hm
      refine ⟨m, ?_, heq⟩
      rw [addAll_append, addAll_cons]
      refine mem_addAll hm ?_
      rw [hkey m n hsome heq]
      intro hk
      apply hnamed
      rw [keys_append, keys_cons]
      exact List.mem_append_right _ (List.mem_append_right _ hk)

end Stability

end Addition

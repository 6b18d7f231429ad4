import AuthMe.Transition.Run
import AuthMe.Scim.Patch

/-!
# What a PATCH leaves alone

An accepted body is a sequence of assignments (`changes`), each of which sets or removes one
attribute or one sub-attribute, so applying it is a run whose events are the assignments.
-/

namespace AuthMe.Scim

open Transition

/-- One assignment that a body asks for. -/
structure Change (α : Type) where
  path : Path α
  op : PatchOp
  value : Value

section Changes

variable {α : Type} [DecidableEq α] (lower : LowerCase) (canonical : String → Option α)
  (isMulti : α → Bool)

/-- The assignments of an operation; there is none where the operation is refused. -/
def operationChanges (raw : Value) : List (Change α) :=
  match operationName lower (raw.get "op") with
  | .error _ => []
  | .ok op =>
    if (raw.get "path").isNullish then
      match raw.get "value" with
      | .object entries => entries.filterMap fun entry =>
          (canonical entry.1).map fun attr => ⟨⟨attr, none, none⟩, op, entry.2⟩
      | _ => []
    else
      match parsePath canonical (raw.get "path") with
      | .error _ => []
      | .ok path => [⟨path, op, raw.get "value"⟩]

/-- The assignments of a body, in order. -/
def changes (body : Value) : List (Change α) :=
  (body.get "Operations").items.flatMap (operationChanges lower canonical)

/-- One assignment to a resource. -/
def patchStep (resource : Resource α) (c : Change α) : Option (Resource α × Unit) :=
  match setAttribute isMulti resource c.path c.op c.value with
  | .ok next => some (next, ())
  | .error _ => none

variable {lower canonical isMulti}

theorem patchStep_eq_some {r r' : Resource α} {c : Change α} :
    patchStep isMulti r c = some (r', ()) ↔
      setAttribute isMulti r c.path c.op c.value = .ok r' := by
  unfold patchStep
  cases setAttribute isMulti r c.path c.op c.value <;> simp

/-- A run that consists of these assignments. -/
def Patched (isMulti : α → Bool) (r : Resource α) (cs : List (Change α)) (r' : Resource α) : Prop :=
  Run (patchStep isMulti) (fun _ _ => True) r (cs.map fun c => (c, ())) r'

theorem Patched.nil (r : Resource α) : Patched isMulti r [] r := Run.nil r

theorem Patched.append {r r' r'' : Resource α} {cs cs' : List (Change α)}
    (h : Patched isMulti r cs r') (h' : Patched isMulti r' cs' r'') :
    Patched isMulti r (cs ++ cs') r'' := by
  unfold Patched
  rw [List.map_append]
  exact Run.append h h'

theorem Patched.single {r r' : Resource α} {c : Change α}
    (h : setAttribute isMulti r c.path c.op c.value = .ok r') : Patched isMulti r [c] r' :=
  Run.single trivial (patchStep_eq_some.mpr h)

theorem patched_cons {r r'' : Resource α} {c : Change α} {cs : List (Change α)} :
    Patched isMulti r (c :: cs) r'' ↔
      ∃ r', setAttribute isMulti r c.path c.op c.value = .ok r' ∧ Patched isMulti r' cs r'' := by
  constructor
  · intro h
    cases h with
    | cons _ hstep hrest => exact ⟨_, patchStep_eq_some.mp hstep, hrest⟩
  · rintro ⟨r', hset, hrest⟩
    exact (Patched.single hset).append hrest

/-- The entries of a value without a path. -/
theorem patched_entries {op : PatchOp} {entries : List (String × Value)} {r r' : Resource α}
    (h : entries.foldlM (applyEntry canonical isMulti op) r = .ok r') :
    Patched isMulti r (entries.filterMap fun entry =>
      (canonical entry.1).map fun attr => ⟨⟨attr, none, none⟩, op, entry.2⟩) r' := by
  induction entries generalizing r with
  | nil =>
    cases h
    exact .nil _
  | cons entry rest ih =>
    rw [List.foldlM_cons, bind_eq_ok] at h
    obtain ⟨m, hentry, hrest⟩ := h
    unfold applyEntry at hentry
    split at hentry
    · cases hentry
    · rename_i attr hattr
      rw [List.filterMap_cons, hattr]
      exact (Patched.single (c := ⟨⟨attr, none, none⟩, op, entry.2⟩) hentry).append (ih hrest)

/-- An operation that is applied is a run of its assignments. -/
theorem patched_operation {raw : Value} {r r' : Resource α}
    (h : applyOperation lower canonical isMulti r raw = .ok r') :
    Patched isMulti r (operationChanges lower canonical raw) r' := by
  unfold applyOperation at h
  split at h
  · rename_i entries
    rw [bind_eq_ok] at h
    obtain ⟨op, hop, h⟩ := h
    split at h
    · rename_i hpath
      split at h
      · cases h
      · split at h
        · rename_i entries' hvalue
          unfold operationChanges
          rw [hop]
          dsimp only
          rw [if_pos hpath, hvalue]
          exact patched_entries h
        · cases h
    · rename_i hpath
      rw [bind_eq_ok] at h
      obtain ⟨path, hparse, h⟩ := h
      split at h
      · cases h
      · unfold operationChanges
        rw [hop]
        dsimp only
        rw [if_neg hpath, hparse]
        exact .single h
  · cases h

/-- An accepted body is a run of its assignments. -/
theorem patched_of_applyPatch {resource result : Resource α} {body : Value}
    (h : applyPatch lower canonical isMulti resource body = .ok result) :
    Patched isMulti resource (changes lower canonical body) result := by
  unfold applyPatch at h
  rw [bind_eq_ok] at h
  obtain ⟨list, hlist, h⟩ := h
  have hitems : (body.get "Operations").items = list := by
    unfold operations at hlist
    split at hlist
    · split at hlist
      · cases hlist
      · split at hlist
        · rename_i items hget
          split at hlist
          · cases hlist
          · cases hlist
            rw [hget]
            rfl
        · cases hlist
    · cases hlist
  rw [changes, hitems]
  clear hlist hitems
  induction list generalizing resource with
  | nil =>
    cases h
    exact .nil _
  | cons raw rest ih =>
    rw [List.foldlM_cons, bind_eq_ok] at h
    obtain ⟨m, hraw, hrest⟩ := h
    rw [List.flatMap_cons]
    exact (patched_operation hraw).append (ih hrest)

end Changes

/-! ## One assignment -/

/-- The sub-attribute of a complex value. -/
def subAttribute (key : String) : Option Value → Option Value
  | some (.object entries) => OrderedMap.lookup key entries
  | _ => none

theorem subAttribute_set (key k : String) (value : Value) (v : Option Value) :
    subAttribute k (some ((v.getD .undefined).set key value)) =
      if k = key then some value else subAttribute k v := by
  cases v with
  | none => simp [Value.set, subAttribute, OrderedMap.lookup, eq_comm]
  | some v =>
    cases v with
    | object entries => exact OrderedMap.lookup_put key k value entries
    | _ => simp [Value.set, subAttribute, OrderedMap.lookup, eq_comm]

theorem subAttribute_delete (key k : String) (v : Value) :
    subAttribute k (some (v.delete key)) = if k = key then none else subAttribute k (some v) := by
  cases v with
  | object entries =>
    simp only [Value.delete, subAttribute]
    induction entries with
    | nil => simp [OrderedMap.lookup]
    | cons entry rest ih =>
      by_cases hkey : entry.1 = key
      · rw [List.filter_cons_of_neg (by simp [hkey]), ih]
        by_cases hk : k = key
        · rw [if_pos hk, if_pos hk]
        · rw [if_neg hk, if_neg hk, OrderedMap.lookup, if_neg (by rw [hkey]; exact Ne.symm hk)]
      · rw [List.filter_cons_of_pos (by simpa using hkey), OrderedMap.lookup, ih,
          OrderedMap.lookup]
        by_cases hk : k = key
        · rw [if_neg (by rw [hk]; exact hkey), if_pos hk, if_pos hk]
        · rw [if_neg hk, if_neg hk]
  | _ => simp [Value.delete, subAttribute]

section Steps

variable {α : Type} [DecidableEq α] {isMulti : α → Bool} {r r' : Resource α} {path : Path α}
  {op : PatchOp} {value : Value}

theorem setMulti_other (h : setMulti r path op value = .ok r') {a : α} (ha : a ≠ path.attr) :
    r' a = r a := by
  have hupdate : ∃ v, r' = Function.update r path.attr v := by
    unfold setMulti at h
    dsimp only at h
    split at h
    · split at h
      · cases h
      · split at h
        · cases h
        · split at h
          · cases h
          · split at h <;> cases h <;> exact ⟨_, rfl⟩
    · split at h
      · cases h
      · split at h
        · split at h
          · cases h
            exact ⟨_, rfl⟩
          · cases h
        · cases h
          exact ⟨_, rfl⟩
        · cases h
          exact ⟨_, rfl⟩
  obtain ⟨v, rfl⟩ := hupdate
  exact Function.update_of_ne ha v r

/-- What an assignment of a simple or complex attribute leaves in it. -/
theorem setSimple_ok (h : setSimple r path op value = .ok r') :
    ∃ v, r' = Function.update r path.attr v ∧
      (path.subAttribute = none → v = if op = .remove then none else some value) ∧
      ∀ sub, path.subAttribute = some sub →
        if op = .remove then (subAttribute sub (r path.attr)).isSome ∧
          ∀ k, subAttribute k v = if k = sub then none else subAttribute k (r path.attr)
        else ∀ k, subAttribute k v = if k = sub then some value else subAttribute k (r path.attr) := by
  unfold setSimple at h
  split at h
  · cases h
  · split at h
    · rename_i sub hsub
      dsimp only at h
      split at h
      · rename_i hop
        split at h
        · split at h <;> cases h
        · split at h
          · rename_i current _ hown
            cases h
            refine ⟨_, rfl, fun hnone => absurd (hsub.symm.trans hnone) (by simp), ?_⟩
            rintro _ hsome
            cases hsub.symm.trans hsome
            rw [if_pos hop]
            cases hr : r path.attr with
            | none =>
              rw [hr] at hown
              cases hown
            | some v =>
              rw [hr, Option.getD_some] at hown
              refine ⟨?_, fun k => subAttribute_delete sub k v⟩
              cases v with
              | object entries => exact hown
              | _ => cases hown
          · cases h
      · rename_i hop
        cases h
        refine ⟨_, rfl, fun hnone => absurd (hsub.symm.trans hnone) (by simp), ?_⟩
        rintro _ hsome
        cases hsub.symm.trans hsome
        rw [if_neg hop]
        exact fun k => subAttribute_set sub k value (r path.attr)
    · rename_i hsub
      split at h
      · rename_i hop
        split at h
        · cases h
          exact ⟨_, rfl, fun _ => by rw [if_pos hop], fun _ hsome => absurd (hsub.symm.trans hsome) (by simp)⟩
        · cases h
      · rename_i hop
        cases h
        exact ⟨_, rfl, fun _ => by rw [if_neg hop], fun _ hsome => absurd (hsub.symm.trans hsome) (by simp)⟩

/-- An assignment changes its attribute only. -/
theorem setAttribute_other (h : setAttribute isMulti r path op value = .ok r') {a : α}
    (ha : a ≠ path.attr) : r' a = r a := by
  unfold setAttribute at h
  split at h
  · exact setMulti_other h ha
  · obtain ⟨v, rfl, -⟩ := setSimple_ok h
    exact Function.update_of_ne ha v r

/-- What every one of the assignments preserves holds after them. -/
theorem Patched.invariant {I : Resource α → Prop} {cs : List (Change α)}
    (hI : ∀ c ∈ cs, ∀ r r', setAttribute isMulti r c.path c.op c.value = .ok r' → I r → I r')
    (h : Patched isMulti r cs r') (h0 : I r) : I r' := by
  have hmem := Run.strengthen (H := fun _ c => c ∈ cs) (P := fun x => x.1 ∈ cs)
    (fun _ _ _ _ _ _ hx => hx) h (by simp)
  refine Run.invariant ?_ hmem h0
  intro m c m' o hm hc hstep
  exact hI c hc m m' (patchStep_eq_some.mp hstep) hm

end Steps

/-! ## Names -/

/-- The value names the sub-attribute, in any letter case; only an object names any. -/
def Value.names (lower : LowerCase) (v : Value) (key : String) : Prop :=
  match v with
  | .object entries => ∃ entry ∈ entries, lower entry.1 = lower key
  | _ => False

/-- The assignment names the sub-attribute: by its path or in its value, or because it asks for the
whole attribute to be removed. -/
def Change.names {α : Type} (lower : LowerCase) (c : Change α) (attr : α) (key : String) : Prop :=
  c.path.attr = attr ∧
    match c.path.subAttribute with
    | some sub => lower sub = lower key
    | none => c.op = .remove ∨ c.value.names lower key

section Frame

variable {α : Type} [DecidableEq α] {lower : LowerCase} {isMulti : α → Bool}

/-- What no assignment names is as it was: attributes, and sub-attributes of complex ones. -/
structure Untouched (lower : LowerCase) (isMulti : α → Bool) (cs : List (Change α))
    (resource result : Resource α) : Prop where
  attributes : ∀ a, (∀ c ∈ cs, c.path.attr ≠ a) → result a = resource a
  subAttributes : ∀ a key, isMulti a = false → (∀ c ∈ cs, ¬ c.names lower a key) →
    subAttribute key (result a) = subAttribute key (resource a)

/-- Where a simple or complex attribute is set or removed as a whole, every sub-attribute that it had
is named by one of the assignments. -/
def NamesAll (lower : LowerCase) (isMulti : α → Bool) (cs : List (Change α))
    (resource : Resource α) : Prop :=
  ∀ c ∈ cs, isMulti c.path.attr = false → c.path.subAttribute = none →
    ∀ key, (subAttribute key (resource c.path.attr)).isSome →
      ∃ c' ∈ cs, c'.names lower c.path.attr key

variable {r r' : Resource α} {c : Change α} {a : α} {key : String}

/-- A value does not have what it does not name. -/
theorem subAttribute_of_not_names {v : Value} (h : ¬ v.names lower key) :
    subAttribute key (some v) = none := by
  cases v with
  | object entries =>
    by_contra hsome
    obtain ⟨value, hlookup⟩ := Option.ne_none_iff_exists'.mp hsome
    exact h ⟨(key, value), OrderedMap.mem_of_lookup hlookup, rfl⟩
  | _ => rfl

/-- An assignment that does not name a sub-attribute keeps it or takes its whole attribute away. -/
theorem subAttribute_step (h : setAttribute isMulti r c.path c.op c.value = .ok r')
    (ha : isMulti a = false) (hno : ¬ c.names lower a key) :
    (c.path.attr = a ∧ c.path.subAttribute = none → subAttribute key (r' a) = none) ∧
      (¬ (c.path.attr = a ∧ c.path.subAttribute = none) →
        subAttribute key (r' a) = subAttribute key (r a)) := by
  by_cases hattr : c.path.attr = a
  · subst hattr
    rw [setAttribute, if_neg (by rw [ha]; decide)] at h
    obtain ⟨v, rfl, hwhole, hsub⟩ := setSimple_ok h
    rw [Function.update_self]
    cases hpath : c.path.subAttribute with
    | none =>
      simp only [Change.names, hpath, true_and, not_or] at hno
      refine ⟨fun _ => ?_, fun h => absurd ⟨rfl, rfl⟩ h⟩
      rw [hwhole hpath, if_neg hno.1]
      exact subAttribute_of_not_names hno.2
    | some sub =>
      simp only [Change.names, hpath, true_and] at hno
      have hne : key ≠ sub := fun heq => hno (by rw [heq])
      refine ⟨fun h => absurd h.2 (by simp), fun _ => ?_⟩
      have hkeys := hsub sub hpath
      split at hkeys
      · rw [hkeys.2, if_neg hne]
      · rw [hkeys, if_neg hne]
  · refine ⟨fun h => absurd h.1 hattr, fun _ => ?_⟩
    rw [setAttribute_other h (Ne.symm hattr)]

theorem untouched_iff {cs : List (Change α)} {resource result : Resource α}
    (h : Patched isMulti resource cs result) :
    Untouched lower isMulti cs resource result ↔ NamesAll lower isMulti cs resource := by
  constructor
  · intro hun c hc hsimple hwhole key hkey
    by_contra hno
    have hno' : ∀ c' ∈ cs, ¬ c'.names lower c.path.attr key := fun c' hc' hnames =>
      hno ⟨c', hc', hnames⟩
    -- once the attribute was set as a whole, the sub-attribute stays away
    obtain ⟨past, rest, rfl⟩ := List.append_of_mem hc
    unfold Patched at h
    rw [List.map_append, List.map_cons] at h
    obtain ⟨m, m', -, -, hstep, hrest⟩ := Run.split_at h
    have hgone := (subAttribute_step (patchStep_eq_some.mp hstep) hsimple (hno' c hc)).1
      ⟨rfl, hwhole⟩
    have hresult : subAttribute key (result c.path.attr) = none := by
      have hpatched : Patched isMulti m' rest result := hrest
      refine hpatched.invariant (I := fun r => subAttribute key (r c.path.attr) = none) ?_ hgone
      intro d hd r r' hset hr
      have hkeep := subAttribute_step hset hsimple
        (hno' d (List.mem_append_right _ (List.mem_cons_of_mem _ hd)))
      by_cases hd' : d.path.attr = c.path.attr ∧ d.path.subAttribute = none
      · exact hkeep.1 hd'
      · rw [hkeep.2 hd', hr]
    rw [← hun.subAttributes _ key hsimple hno', hresult] at hkey
    cases hkey
  · intro hall
    refine ⟨?_, ?_⟩
    · intro a ha
      refine h.invariant (I := fun r => r a = resource a) ?_ rfl
      intro c hc r r' hset hr
      rw [setAttribute_other hset (Ne.symm (ha c hc)), hr]
    · intro a key hsimple hno
      refine h.invariant (I := fun r => subAttribute key (r a) = subAttribute key (resource a)) ?_
        rfl
      intro c hc r r' hset hr
      have hkeep := subAttribute_step hset hsimple (hno c hc)
      by_cases hwhole : c.path.attr = a ∧ c.path.subAttribute = none
      · rw [hkeep.1 hwhole]
        by_contra hne
        obtain ⟨rfl, hpath⟩ := hwhole
        obtain ⟨c', hc', hnames⟩ := hall c hc hsimple hpath key
          (Option.isSome_iff_ne_none.mpr (Ne.symm hne))
        exact hno c' hc' hnames
      · rw [hkeep.2 hwhole, hr]

/-! ## Letter case -/

/-- An assignment of a sub-attribute leaves one sub-attribute of that name, in whatever letter case,
and it has the value; the removal leaves none. -/
def UpdatesOne (lower : LowerCase) (isMulti : α → Bool) (_ : Resource α) (c : Change α)
    (after : Resource α) : Prop :=
  ∀ sub, isMulti c.path.attr = false → c.path.subAttribute = some sub →
    if c.op = .remove then
      ∀ key, lower key = lower sub → subAttribute key (after c.path.attr) = none
    else
      ∃ key, lower key = lower sub ∧ subAttribute key (after c.path.attr) = some c.value ∧
        ∀ other, lower other = lower sub → (subAttribute other (after c.path.attr)).isSome →
          other = key

/-- Where the attribute has the sub-attribute of a path, it has it in the letter case of the
path. -/
def SpelledAlike (lower : LowerCase) (isMulti : α → Bool) (before : Resource α) (c : Change α)
    (_ : Resource α) : Prop :=
  ∀ sub, isMulti c.path.attr = false → c.path.subAttribute = some sub →
    ∀ key, lower key = lower sub → (subAttribute key (before c.path.attr)).isSome → key = sub

theorem updatesOne_iff (h : setAttribute isMulti r c.path c.op c.value = .ok r') :
    UpdatesOne lower isMulti r c r' ↔ SpelledAlike lower isMulti r c r' := by
  refine forall₃_congr fun sub hsimple hsub => ?_
  rw [setAttribute, if_neg (by rw [hsimple]; decide)] at h
  obtain ⟨v, rfl, -, hkeys⟩ := setSimple_ok h
  have hkeys := hkeys sub hsub
  rw [Function.update_self]
  split
  · rename_i hop
    rw [if_pos hop] at hkeys
    constructor
    · intro hnone key hkey hsome
      by_contra hne
      have hgone := hnone key hkey
      rw [hkeys.2, if_neg hne] at hgone
      rw [hgone] at hsome
      cases hsome
    · intro hone key hkey
      rw [hkeys.2]
      split
      · rfl
      · rename_i hne
        by_contra hsome
        exact hne (hone key hkey (Option.isSome_iff_ne_none.mpr hsome))
  · rename_i hop
    rw [if_neg hop] at hkeys
    constructor
    · rintro ⟨one, -, -, hunique⟩ key hkey hsome
      have hsub' := hunique sub rfl (by rw [hkeys, if_pos rfl]; rfl)
      rw [hsub']
      apply hunique key hkey
      rw [hkeys]
      split
      · rfl
      · exact hsome
    · intro hone
      refine ⟨sub, rfl, by rw [hkeys, if_pos rfl], ?_⟩
      intro other hother hsome
      by_contra hne
      rw [hkeys, if_neg hne] at hsome
      exact hne (hone other hother hsome)

/-- The run of the assignments of a body, as a trace. -/
def patchTrace (cs : List (Change α)) : List (Change α × Unit) := cs.map fun c => (c, ())

variable {canonical : String → Option α}

/-- **Frame.** An accepted body leaves alone what it does not name, and each of its assignments of a
sub-attribute updates the one that is there in any letter case, if and only if it names every
sub-attribute of an attribute that it sets as a whole, be it to an object or to something else, and
every sub-attribute that a path names stands there in the letter case of the path when its turn
comes. -/
theorem patch_frame {resource result : Resource α} {body : Value}
    (h : applyPatch lower canonical isMulti resource body = .ok result) :
    (Untouched lower isMulti (changes lower canonical body) resource result ∧
        EachStep (patchStep isMulti) (UpdatesOne lower isMulti) resource
          (patchTrace (changes lower canonical body))) ↔
      (NamesAll lower isMulti (changes lower canonical body) resource ∧
        EachStep (patchStep isMulti) (SpelledAlike lower isMulti) resource
          (patchTrace (changes lower canonical body))) :=
  and_congr (untouched_iff (patched_of_applyPatch h))
    (EachStep.congr fun _ _ _ _ hstep => updatesOne_iff (patchStep_eq_some.mp hstep))

end Frame

/-! ### A name -/

/-- A body with one operation. -/
def oneOperation (op path : String) (value : Value) : Value :=
  .object [("schemas", .array [.string SCIM_URNS.patchOp]),
    ("Operations", .array [.object [("op", .string op), ("path", .string path), ("value", value)]])]

/-- A resource that has a name. -/
def named (entries : List (String × Value)) : Resource UserAttribute
  | .name => some (.object entries)
  | _ => none

def nameOf (result : Except Error (Resource UserAttribute)) : Option Value :=
  result.toOption.bind fun r => r .name

def adaLovelace : List (String × Value) :=
  [("givenName", .string "Ada"), ("familyName", .string "Lovelace")]

def newFamilyName : Value := oneOperation "replace" "name.familyName" (.string "Byron")

theorem changes_newFamilyName :
    changes .onlyAscii (canonicalUserAttribute .onlyAscii) newFamilyName =
      [⟨⟨.name, none, some "familyName"⟩, .replace, .string "Byron"⟩] := rfl

theorem patch_frame_newName :
    ∃ result, applyUserPatch .onlyAscii (named adaLovelace) newFamilyName = .ok result ∧
      Untouched .onlyAscii UserAttribute.isMulti
        (changes .onlyAscii (canonicalUserAttribute .onlyAscii) newFamilyName) (named adaLovelace)
        result := by
  have happly : ∃ result, applyPatch .onlyAscii (canonicalUserAttribute .onlyAscii)
      UserAttribute.isMulti (named adaLovelace) newFamilyName = .ok result := ⟨_, rfl⟩
  obtain ⟨result, happly⟩ := happly
  refine ⟨result, happly, ((patch_frame happly).mpr ⟨?_, ?_⟩).1⟩
  · rw [changes_newFamilyName]
    intro c hc _ hwhole
    rw [List.mem_singleton.mp hc] at hwhole
    cases hwhole
  · rw [changes_newFamilyName]
    intro past c o rest m m' htr hrun hstep sub _ hsub key hkey hsome
    cases past with
    | cons x past =>
      have hlength := congrArg List.length htr
      simp [patchTrace] at hlength
    | nil =>
      cases htr
      cases hrun
      cases hsub
      have hcases : key = "givenName" ∨ key = "familyName" := by
        by_contra hno
        rw [not_or] at hno
        simp [named, adaLovelace, subAttribute, OrderedMap.lookup, Ne.symm hno.1,
          Ne.symm hno.2] at hsome
      rcases hcases with rfl | rfl
      · exact absurd hkey (by decide)
      · rfl

/-- An `add` of a name takes a sub-attribute away that it does not name, an `add` of `null` takes
both, and a path in another letter case makes a second sub-attribute. -/
theorem patch_frame_lost :
    nameOf (applyUserPatch .onlyAscii (named adaLovelace)
        (oneOperation "add" "name" (.object [("givenName", .string "Augusta")]))) =
      some (.object [("givenName", .string "Augusta")]) ∧
    nameOf (applyUserPatch .onlyAscii (named adaLovelace) (oneOperation "add" "name" .null)) =
      some .null ∧
    nameOf (applyUserPatch .onlyAscii (named adaLovelace)
        (oneOperation "replace" "name.FamilyName" (.string "Byron"))) =
      some (.object [("givenName", .string "Ada"), ("familyName", .string "Lovelace"),
        ("FamilyName", .string "Byron")]) :=
  ⟨rfl, rfl, rfl⟩

end AuthMe.Scim

import Mathlib.Data.List.DropRight
import AuthMe.Text
import AuthMe.Ldap.Names

/-!
# The groups of a directory entry

`federation/ldap.js` takes the group of a user from the text of a distinguished name: what is after
the first `cn=` at the start of the text or behind a comma, up to the next comma, or the whole text
where there is no `cn=`. A comma in a value is written with an escape, and the code does not know the
escapes. So a value of another type can have the `cn=`, and a name is cut at its first comma. The
group is that of a common name exactly where that one is alone in its RDN, has the type `cn` and is
written without escapes, and where nothing before it reads as a common name.
-/

namespace AuthMe.Ldap

/-! ## The code -/

/-- `strings`, of the values of an attribute as texts. -/
def strings (value : List String) : List String := (value.map Text.trim).filter (· ≠ "")

/-- The rest of the text after `cn=` in any case. -/
def afterCn : List Char → Option (List Char)
  | c :: n :: e :: rest =>
    if asciiLower c = 'c' ∧ asciiLower n = 'n' ∧ e = '=' then some rest else none
  | _ => none

/-- `\s*cn=([^,]+)` at the start of the text. -/
def matchCn (text : List Char) : Option (List Char) :=
  ((afterCn (text.dropWhile Text.isWhiteSpace)).map (List.takeWhile (· ≠ ','))).filter (· ≠ [])

/-- The first match behind a comma. -/
def search : List Char → Option (List Char)
  | [] => none
  | c :: text => (if c = ',' then matchCn text else none).or (search text)

/-- What `/(?:^|,)\s*cn=([^,]+)/i` captures. -/
def execCn (value : List Char) : Option (List Char) := (matchCn value).or (search value)

/-- `replaceAll('/', '-')`, of one character. -/
def dash (c : Char) : Char := if c = '/' then '-' else c

def slug (name : List Char) : List Char := (Text.trim (String.ofList name)).toList.map dash

/-- The path of a name, where something of the name is left. -/
def namePath (name : List Char) : Option String :=
  if slug name = [] then none else some (String.ofList ('/' :: slug name))

def groupPath (value : String) : Option String :=
  namePath ((execCn value.toList).getD value.toList)

/-- `groups` of `profileFor`. -/
def groups (groupValues : List String) : List String :=
  ((strings groupValues).filterMap groupPath).eraseDups

/-- The groups of an entry are those of its values, each by itself. -/
theorem mem_groups {groupValues : List String} {path : String} :
    path ∈ groups groupValues ↔ ∃ value ∈ groupValues, path ∈ groups [value] := by
  have hone : ∀ value, path ∈ groups [value] ↔
      Text.trim value ≠ "" ∧ groupPath (Text.trim value) = some path := by
    intro value
    simp only [groups, strings, List.map_cons, List.map_nil, List.mem_eraseDups,
      List.mem_filterMap, List.mem_filter, List.mem_singleton, decide_eq_true_eq]
    constructor
    · rintro ⟨_, ⟨rfl, hne⟩, hpath⟩
      exact ⟨hne, hpath⟩
    · rintro ⟨hne, hpath⟩
      exact ⟨_, ⟨rfl, hne⟩, hpath⟩
  simp only [hone]
  simp only [groups, strings, List.mem_eraseDups, List.mem_filterMap, List.mem_filter,
    List.mem_map, decide_eq_true_eq]
  constructor
  · rintro ⟨_, ⟨⟨value, hvalue, rfl⟩, hne⟩, hpath⟩
    exact ⟨value, hvalue, hne, hpath⟩
  · rintro ⟨value, hvalue, hne, hpath⟩
    exact ⟨_, ⟨⟨value, hvalue, rfl⟩, hne⟩, hpath⟩

/-! ## The search -/

theorem asciiLower_cases {c d : Char} (h : asciiLower c = d) :
    c = d ∨ c.toNat + 32 = d.toNat ∧ 'A' ≤ c ∧ c ≤ 'Z' := by
  unfold asciiLower at h
  split at h
  · rename_i hc
    refine .inr ⟨?_, hc⟩
    have hle : c.toNat ≤ 90 := hc.2
    rw [← h, Text.toNat_ofNat (by rw [Nat.isValidChar]; omega)]
  · exact .inl h

theorem eq_of_asciiLower_c {c : Char} (h : asciiLower c = 'c') : c = 'c' ∨ c = 'C' := by
  rcases asciiLower_cases h with heq | ⟨heq, _, _⟩
  · exact .inl heq
  · refine .inr (Char.toNat_inj.mp ?_)
    have hc : c.toNat + 32 = 99 := heq
    show c.toNat = 67
    omega

theorem afterCn_eq_some {text rest : List Char} :
    afterCn text = some rest ↔
      ∃ c n, text = c :: n :: '=' :: rest ∧ asciiLower c = 'c' ∧ asciiLower n = 'n' := by
  constructor
  · intro h
    unfold afterCn at h
    split at h
    · rename_i c n e rest'
      split at h
      · rename_i hcn
        obtain ⟨hc, hn, he⟩ := hcn
        cases h
        exact ⟨c, n, by rw [he], hc, hn⟩
      · cases h
    · cases h
  · rintro ⟨c, n, rfl, hc, hn⟩
    rw [afterCn, if_pos ⟨hc, hn, rfl⟩]

theorem matchCn_eq_some {text name : List Char} (h : matchCn text = some name) :
    ∃ lead c n rest, text = lead ++ c :: n :: '=' :: rest ∧
      (∀ x ∈ lead, Text.isWhiteSpace x = true) ∧ asciiLower c = 'c' ∧ asciiLower n = 'n' ∧
      rest.takeWhile (· ≠ ',') = name ∧ name ≠ [] := by
  simp only [matchCn, Option.filter_eq_some_iff, Option.map_eq_some_iff, decide_eq_true_eq] at h
  obtain ⟨⟨rest, hrest, hname⟩, hne⟩ := h
  obtain ⟨c, n, htext, hc, hn⟩ := afterCn_eq_some.mp hrest
  refine ⟨text.takeWhile Text.isWhiteSpace, c, n, rest, ?_, ?_, hc, hn, hname, hne⟩
  · rw [← htext, List.takeWhile_append_dropWhile]
  · exact fun x hx => List.mem_takeWhile_imp hx

theorem takeWhile_stop {α : Type} {p : α → Bool} {x : α} (hx : p x = false) (l r : List α) :
    (l ++ x :: r).takeWhile p = l.takeWhile p := by
  induction l with
  | nil => simp [hx]
  | cons y l ih => simp only [List.cons_append, List.takeWhile_cons, ih]

/-- A match ends before the next comma. -/
theorem matchCn_append_comma (text rest : List Char) :
    matchCn (text ++ ',' :: rest) = matchCn text := by
  have hdrop : (text ++ ',' :: rest).dropWhile Text.isWhiteSpace =
      text.dropWhile Text.isWhiteSpace ++ ',' :: rest := by
    rw [List.dropWhile_append]
    cases text.dropWhile Text.isWhiteSpace with
    | nil => rfl
    | cons c cs => rfl
  rw [matchCn, hdrop, matchCn]
  generalize text.dropWhile Text.isWhiteSpace = cs
  have hafter : afterCn (cs ++ ',' :: rest) = (afterCn cs).map (· ++ ',' :: rest) := by
    have hcomma : asciiLower ',' ≠ 'c' ∧ asciiLower ',' ≠ 'n' ∧ ',' ≠ '=' := by decide
    match cs with
    | [] => cases rest with
      | nil => rfl
      | cons x rest => cases rest with
        | nil => rfl
        | cons y rest => simp [afterCn, hcomma.1]
    | [c] => cases rest with
      | nil => rfl
      | cons x rest => simp [afterCn, hcomma.2.1]
    | [c, n] => simp [afterCn]
    | c :: n :: e :: cs =>
      simp only [List.cons_append, afterCn]
      split <;> rfl
  rw [hafter, Option.map_map]
  congr 2
  funext cs
  exact takeWhile_stop (by decide) cs rest

theorem search_append_comma (text rest : List Char) :
    search (text ++ ',' :: rest) = (search text).or (search (',' :: rest)) := by
  induction text with
  | nil => rfl
  | cons c text ih =>
    rw [List.cons_append, search, ih, matchCn_append_comma, ← Option.or_assoc]
    rfl

theorem execCn_eq_search (text : List Char) : execCn text = search (',' :: text) := rfl

theorem search_skip {text : List Char} (h : ',' ∉ text) (rest : List Char) :
    search (text ++ rest) = search rest := by
  induction text with
  | nil => rfl
  | cons c text ih =>
    rw [List.mem_cons, not_or] at h
    rw [List.cons_append, search, if_neg (Ne.symm h.1), ih h.2]
    rfl

/-- The match that is found: nothing before its comma matches. -/
theorem search_eq_some {text name : List Char} (h : search text = some name) :
    ∃ before rest, text = before ++ ',' :: rest ∧ search before = none ∧
      matchCn rest = some name := by
  induction text with
  | nil => cases h
  | cons c text ih =>
    rw [search] at h
    by_cases hfirst : (if c = ',' then matchCn text else none) = none
    · rw [hfirst, Option.none_or] at h
      obtain ⟨before, rest, htext, hbefore, hmatch⟩ := ih h
      refine ⟨c :: before, rest, by rw [htext]; rfl, ?_, hmatch⟩
      rw [htext, matchCn_append_comma] at hfirst
      rw [search, hfirst, hbefore]
      rfl
    · by_cases hc : c = ','
      · rw [if_pos hc] at h hfirst
        obtain ⟨v, hv⟩ := Option.ne_none_iff_exists'.mp hfirst
        rw [hv, Option.some_or] at h
        exact ⟨[], text, by rw [hc]; rfl, rfl, hv.trans h⟩
      · exact absurd (if_neg hc) hfirst

theorem isWhiteSpace_c {c : Char} (h : asciiLower c = 'c') : Text.isWhiteSpace c = false := by
  rcases eq_of_asciiLower_c h with heq | heq <;> rw [heq] <;> decide

theorem matchCn_eq {lead rest : List Char} {c n : Char}
    (hlead : ∀ x ∈ lead, Text.isWhiteSpace x = true) (hc : asciiLower c = 'c')
    (hn : asciiLower n = 'n') :
    matchCn (lead ++ c :: n :: '=' :: rest) =
      (some (rest.takeWhile (· ≠ ','))).filter (· ≠ []) := by
  rw [matchCn, List.dropWhile_append_of_pos hlead,
    List.dropWhile_cons_of_neg (by simp [isWhiteSpace_c hc]),
    afterCn_eq_some.mpr ⟨c, n, rfl, hc, hn⟩]
  rfl

/-! ## The path of a name -/

theorem rdropWhile_stop {α : Type} {p : α → Bool} {x : α} (hx : p x = false) (l r : List α) :
    (l ++ x :: r).rdropWhile p = l ++ x :: r.rdropWhile p := by
  rw [List.rdropWhile, List.reverse_append, List.reverse_cons, List.append_assoc,
    List.dropWhile_append]
  cases h : r.reverse.dropWhile p with
  | nil => simp [List.rdropWhile, h, hx]
  | cons y ys => simp [List.rdropWhile, h]

theorem rdropWhile_append_all {α : Type} {p : α → Bool} {t : List α} (ht : ∀ x ∈ t, p x = true)
    (l : List α) : (l ++ t).rdropWhile p = l.rdropWhile p := by
  rw [List.rdropWhile, List.reverse_append, List.dropWhile_append_of_pos]
  · rfl
  · exact fun x hx => ht x (List.mem_reverse.mp hx)

theorem filter_dropWhile {α : Type} (p : α → Bool) (l : List α) :
    (l.dropWhile p).filter (fun x => !p x) = l.filter fun x => !p x := by
  induction l with
  | nil => rfl
  | cons x l ih =>
    by_cases hx : p x = true
    · rw [List.dropWhile_cons_of_pos hx, ih, List.filter_cons_of_neg (by simp [hx])]
    · rw [List.dropWhile_cons_of_neg hx]

theorem filter_rdropWhile {α : Type} (p : α → Bool) (l : List α) :
    (l.rdropWhile p).filter (fun x => !p x) = l.filter fun x => !p x := by
  rw [List.rdropWhile, List.filter_reverse, filter_dropWhile, List.filter_reverse,
    List.reverse_reverse]

theorem isWhiteSpace_dash (c : Char) : Text.isWhiteSpace (dash c) = Text.isWhiteSpace c := by
  unfold dash
  split
  · rename_i h
    rw [h]
    decide
  · rfl

theorem slug_eq (name : List Char) :
    slug name =
      ((name.dropWhile Text.isWhiteSpace).rdropWhile Text.isWhiteSpace).map dash := by
  rw [slug, Text.trim, String.toList_ofList, String.toList_ofList]
  rfl

@[simp] theorem slug_nil : slug [] = [] := by
  rw [slug_eq]
  rfl

/-- The characters of a name that are not white space, as its path has them. -/
def mark (name : List Char) : List Char := (name.filter fun c => !Text.isWhiteSpace c).map dash

@[simp] theorem mark_nil : mark [] = [] := rfl

@[simp] theorem mark_append (s t : List Char) : mark (s ++ t) = mark s ++ mark t := by
  simp [mark]

theorem mark_cons {c : Char} (hc : Text.isWhiteSpace c = false) (s : List Char) :
    mark (c :: s) = dash c :: mark s := by
  simp [mark, hc]

theorem mark_eq_nil {s : List Char} : mark s = [] ↔ ∀ c ∈ s, Text.isWhiteSpace c = true := by
  simp [mark]

theorem mem_mark {c : Char} {s : List Char} (hc : Text.isWhiteSpace c = false) (h : c ∈ s) :
    dash c ∈ mark s :=
  List.mem_map_of_mem (List.mem_filter.mpr ⟨h, by simp [hc]⟩)

theorem mark_slug (name : List Char) : (slug name).filter (fun c => !Text.isWhiteSpace c) = mark name := by
  rw [slug_eq, List.filter_map, mark]
  have hcomp : (fun c => !Text.isWhiteSpace c) ∘ dash = fun c => !Text.isWhiteSpace c := by
    funext c
    rw [Function.comp_apply, isWhiteSpace_dash]
  rw [hcomp, filter_rdropWhile, filter_dropWhile]

theorem slug_eq_nil {name : List Char} : slug name = [] ↔ mark name = [] := by
  constructor
  · intro h
    rw [← mark_slug, h]
    rfl
  · intro h
    rw [slug_eq, List.dropWhile_eq_nil_iff.mpr (mark_eq_nil.mp h)]
    rfl

theorem slug_append_all {t : List Char} (ht : ∀ x ∈ t, Text.isWhiteSpace x = true)
    (s : List Char) : slug (s ++ t) = slug s := by
  rw [slug_eq, slug_eq, List.dropWhile_append]
  cases h : s.dropWhile Text.isWhiteSpace with
  | nil =>
    rw [List.isEmpty_nil, if_pos rfl, List.dropWhile_eq_nil_iff.mpr ht]
  | cons x xs =>
    rw [List.isEmpty_cons, if_neg Bool.false_ne_true, rdropWhile_append_all ht]

theorem slug_rdropWhile (s : List Char) : slug (s.rdropWhile Text.isWhiteSpace) = slug s := by
  have htail : ∀ x ∈ s.rtakeWhile Text.isWhiteSpace, Text.isWhiteSpace x = true :=
    fun x hx => List.mem_rtakeWhile_imp hx
  rw [← slug_append_all htail, List.rdropWhile_append_rtakeWhile]

theorem namePath_eq_none {name : List Char} : namePath name = none ↔ mark name = [] := by
  rw [← slug_eq_nil, namePath]
  split <;> simp_all

theorem slug_of_namePath {s t : List Char} (h : namePath s = namePath t) : slug s = slug t := by
  unfold namePath at h
  split at h <;> split at h
  · rename_i hs ht
    rw [hs, ht]
  · cases h
  · cases h
  · have hlist := String.ofList_injective (Option.some.inj h)
    exact (List.cons.inj hlist).2

theorem mark_of_namePath {s t : List Char} (h : namePath s = namePath t) : mark s = mark t := by
  rw [← mark_slug, ← mark_slug, slug_of_namePath h]

theorem namePath_of_slug {s t : List Char} (h : slug s = slug t) : namePath s = namePath t := by
  rw [namePath, namePath, h]

end AuthMe.Ldap

import Mathlib.Data.List.TakeWhile
import AuthMe.Scim.Filter
import AuthMe.Scim.JsonString
import AuthMe.Scim.Patch

/-!
# The texts in filters and paths are exact

What `parseFilter` and `parsePath` accept, as a grammar: a name, `eq`, one JSON string, and for a path the
brackets and the sub-attribute. `literals_exact`: a value comes back as it was written, and of an input that
is accepted nothing is ignored but the white space around it.
-/

namespace AuthMe.Scim

/-! ## The grammar of the two expressions -/

/-- `\s+`. -/
structure Blank (s : List Char) : Prop where
  ne_nil : s ≠ []
  space : ∀ c ∈ s, Text.isWhiteSpace c = true

/-- `\s+eq\s+`. -/
inductive EqSign : List Char → Prop
  | mk {before after : List Char} {e q : Char} (hbefore : Blank before) (he : e = 'e' ∨ e = 'E')
      (hq : q = 'q' ∨ q = 'Q') (hafter : Blank after) : EqSign (before ++ e :: q :: after)

/-- A name of the characters that `more` admits. -/
inductive Name (more : Char → Bool) : String → Prop
  | mk {c : Char} {rest : List Char} (hc : isLetter c = true) (hrest : ∀ d ∈ rest, more d = true) :
      Name more (String.ofList (c :: rest))

/-- A comparison of a name with the string of a JSON literal. -/
inductive Comparison (more : Char → Bool) : List Char → String → List Nat → Prop
  | mk {name : String} {sign body : List Char} {value : List Nat} (hname : Name more name)
      (hsign : EqSign sign) (hbody : JsonChars body value) :
      Comparison more (name.toList ++ (sign ++ '"' :: (body ++ ['"']))) name value

/-- What follows the brackets. -/
inductive SubAttribute : List Char → Option String → Prop
  | none : SubAttribute [] none
  | some {name : String} (hname : Name isPathName name) :
      SubAttribute ('.' :: name.toList) (some name)

/-- A path with a value filter. -/
inductive FilteredPath : List Char → String → String → List Nat → Option String → Prop
  | mk {name filterName : String} {comparison rest : List Char} {value : List Nat}
      {sub : Option String} (hname : Name isPathName name)
      (hcomparison : Comparison isPathName comparison filterName value)
      (hrest : SubAttribute rest sub) :
      FilteredPath (name.toList ++ '[' :: (comparison ++ ']' :: rest)) name filterName value sub

/-! ## What the expressions cut out -/

section Cut

variable {cs body rest : List Char} {name : String} {more : Char → Bool}

theorem quotedBody_eq_some (h : quotedBody cs = some (body, rest)) : cs = body ++ '"' :: rest := by
  induction cs using quotedBody.induct generalizing body with
  | case1 tail => cases h; rfl
  | case2 => cases h
  | case3 c tail hline =>
    rw [quotedBody, if_pos hline] at h
    cases h
  | case4 c tail hline ih =>
    rw [quotedBody, if_neg hline] at h
    obtain ⟨⟨body', rest'⟩, htail, heq⟩ := Option.map_eq_some_iff.mp h
    cases heq
    rw [ih htail]
    rfl
  | case5 c tail hquote hlone hpair ih =>
    rw [quotedBody] at h
    · obtain ⟨⟨body', rest'⟩, htail, heq⟩ := Option.map_eq_some_iff.mp h
      cases heq
      rw [ih htail]
      rfl
    · exact hquote
    · exact hlone
    · exact hpair
  | case6 => cases h

theorem hexUnit?_plain {a b c d : Char} {unit : Nat} (h : hexUnit? a b c d = some unit) :
    (a ≠ '"' ∧ a ≠ '\\') ∧ (b ≠ '"' ∧ b ≠ '\\') ∧ (c ≠ '"' ∧ c ≠ '\\') ∧ d ≠ '"' ∧ d ≠ '\\' := by
  have hdigit : ∀ {c : Char} {n : Nat}, hexDigit? c = some n → c ≠ '"' ∧ c ≠ '\\' := by
    intro c n hc
    constructor <;> rintro rfl <;> cases hc
  unfold hexUnit? at h
  split at h
  · rename_i ha hb hc hd
    exact ⟨hdigit ha, hdigit hb, hdigit hc, hdigit hd⟩
  · cases h

/-- The content of a JSON string is cut out whole. -/
theorem quotedBody_chars {value : List Nat} (h : JsonChars body value) (rest : List Char) :
    quotedBody (body ++ '"' :: rest) = some (body, rest) := by
  induction h with
  | nil => rfl
  | @cons s t units more hs _ ih =>
    rw [List.append_assoc]
    generalize t ++ '"' :: rest = tail at ih
    -- a character stands for itself
    have hplain : ∀ {c : Char} {cs body : List Char}, c ≠ '"' → c ≠ '\\' →
        quotedBody cs = some (body, rest) → quotedBody (c :: cs) = some (c :: body, rest) := by
      intro c cs body hquote hescape hcs
      rw [quotedBody, hcs]
      · rfl
      · exact hquote
      · exact fun h => absurd h hescape
      · exact fun _ _ h => absurd h hescape
    cases hs with
    | unescaped _ hquote hescape => exact hplain hquote hescape ih
    | @escape c unit h =>
      have hline : Text.isLineTerminator c = false := by
        cases h <;> rfl
      change quotedBody ('\\' :: c :: tail) = some ('\\' :: c :: t, rest)
      rw [quotedBody, if_neg (by simp [hline]), ih]
      rfl
    | @unicode a b c d unit h =>
      obtain ⟨ha, hb, hc, hd⟩ := hexUnit?_plain h
      change quotedBody ('\\' :: 'u' :: a :: b :: c :: d :: tail) =
        some ('\\' :: 'u' :: a :: b :: c :: d :: t, rest)
      have hdigits := hplain ha.1 ha.2 (hplain hb.1 hb.2 (hplain hc.1 hc.2 (hplain hd.1 hd.2 ih)))
      rw [quotedBody, if_neg (by decide), hdigits]
      rfl

theorem spaces?_eq_some (h : spaces? cs = some rest) : ∃ blank, Blank blank ∧ cs = blank ++ rest := by
  cases cs with
  | nil => cases h
  | cons c cs =>
    rw [spaces?] at h
    split at h
    · rename_i hc
      cases h
      refine ⟨c :: cs.takeWhile Text.isWhiteSpace, ⟨List.cons_ne_nil _ _, ?_⟩, ?_⟩
      · intro d hd
        rcases List.mem_cons.mp hd with rfl | hd
        · exact hc
        · exact List.mem_takeWhile_imp hd
      · rw [List.cons_append, List.takeWhile_append_dropWhile]
    · cases h

theorem spaces?_blank {blank : List Char} {c : Char} (h : Blank blank)
    (hc : Text.isWhiteSpace c = false) : spaces? (blank ++ c :: rest) = some (c :: rest) := by
  obtain ⟨d, tail, rfl⟩ := List.exists_cons_of_ne_nil h.ne_nil
  rw [List.cons_append, spaces?, if_pos (h.space d List.mem_cons_self),
    List.dropWhile_append_of_pos fun x hx => h.space x (List.mem_cons_of_mem _ hx),
    List.dropWhile_cons_of_neg (by simp [hc])]

theorem equals?_eq_some (h : equals? cs = some rest) :
    ∃ e q, (e = 'e' ∨ e = 'E') ∧ (q = 'q' ∨ q = 'Q') ∧ cs = e :: q :: rest := by
  unfold equals? at h
  split at h
  · rename_i e q rest'
    split at h
    · rename_i heq
      cases h
      exact ⟨e, q, heq.1, heq.2, rfl⟩
    · cases h
  · cases h

theorem comparison?_eq_some (h : comparison? cs = some (body, rest)) :
    ∃ sign, EqSign sign ∧ cs = sign ++ '"' :: (body ++ '"' :: rest) := by
  simp only [comparison?, Option.bind_eq_bind, Option.bind_eq_some_iff] at h
  obtain ⟨cs₁, h₁, cs₂, h₂, cs₃, h₃, h⟩ := h
  obtain ⟨before, hbefore, rfl⟩ := spaces?_eq_some h₁
  obtain ⟨e, q, he, hq, rfl⟩ := equals?_eq_some h₂
  obtain ⟨after, hafter, rfl⟩ := spaces?_eq_some h₃
  split at h
  · rename_i tail
    refine ⟨_, .mk hbefore he hq hafter, ?_⟩
    rw [quotedBody_eq_some h]
    simp
  · cases h

theorem comparison?_sign {sign : List Char} {value : List Nat} (hsign : EqSign sign)
    (hbody : JsonChars body value) (rest : List Char) :
    comparison? (sign ++ '"' :: (body ++ '"' :: rest)) = some (body, rest) := by
  cases hsign with
  | @mk before after e q hbefore he hq hafter =>
    have hspace : Text.isWhiteSpace e = false := by
      rcases he with rfl | rfl <;> decide
    have hquote : Text.isWhiteSpace '"' = false := by decide
    simp only [comparison?, Option.bind_eq_bind, List.append_assoc, List.cons_append]
    rw [spaces?_blank hbefore hspace, Option.bind_some, equals?, if_pos ⟨he, hq⟩, Option.bind_some,
      spaces?_blank hafter hquote, Option.bind_some]
    exact quotedBody_chars hbody rest

theorem name?_eq_some (h : name? more cs = some (name, rest)) :
    Name more name ∧ cs = name.toList ++ rest := by
  unfold name? at h
  split at h
  · rename_i c tail
    split at h
    · rename_i hc
      cases h
      refine ⟨.mk hc fun d hd => List.mem_takeWhile_imp hd, ?_⟩
      rw [String.toList_ofList, List.cons_append, List.takeWhile_append_dropWhile]
    · cases h
  · cases h

theorem name?_name {c : Char} (h : Name more name) (hc : more c = false) :
    name? more (name.toList ++ c :: rest) = some (name, c :: rest) := by
  cases h with
  | @mk d tail hd htail =>
    rw [String.toList_ofList, List.cons_append, name?, if_pos hd, List.takeWhile_append_of_pos htail,
      List.dropWhile_append_of_pos htail, List.takeWhile_cons_of_neg (by simp [hc]),
      List.dropWhile_cons_of_neg (by simp [hc]), List.append_nil]

end Cut

/-! ## White space around an input -/

/-- The input is the text with white space around it. -/
def Around (input text : List Char) : Prop :=
  ∃ before after, input = before ++ text ++ after ∧
    (∀ c ∈ before, Text.isWhiteSpace c = true) ∧ ∀ c ∈ after, Text.isWhiteSpace c = true

theorem around_trim (s : String) : Around s.toList (Text.trim s).toList := by
  rw [Text.trim, String.toList_ofList]
  generalize hl : s.toList.dropWhile Text.isWhiteSpace = l
  refine ⟨s.toList.takeWhile Text.isWhiteSpace,
    (l.reverse.takeWhile Text.isWhiteSpace).reverse, ?_, ?_, ?_⟩
  · rw [List.append_assoc, ← List.reverse_append, List.takeWhile_append_dropWhile, List.reverse_reverse,
      ← hl, List.takeWhile_append_dropWhile]
  · exact fun c hc => List.mem_takeWhile_imp hc
  · exact fun c hc => List.mem_takeWhile_imp (List.mem_reverse.mp hc)

theorem trim_of_ends {s : String} {c d : Char} {first last : List Char} (hfirst : s.toList = c :: first)
    (hlast : s.toList.reverse = d :: last) (hc : Text.isWhiteSpace c = false)
    (hd : Text.isWhiteSpace d = false) : Text.trim s = s := by
  apply String.toList_injective
  rw [Text.trim, String.toList_ofList, hfirst, List.dropWhile_cons_of_neg (by simp [hc]), ← hfirst,
    hlast, List.dropWhile_cons_of_neg (by simp [hd]), ← hlast, List.reverse_reverse]

theorem name_not_space {c : Char} (h : isFilterName c = true) : Text.isWhiteSpace c = false := by
  have hrange : 36 ≤ c.toNat ∧ c.toNat ≤ 122 := by
    simp only [isFilterName, isLetter, Bool.or_eq_true, Bool.and_eq_true, decide_eq_true_eq,
      beq_iff_eq] at h
    rcases h with (((((⟨hlow, hhigh⟩ | ⟨hlow, hhigh⟩) | hdigit) | rfl) | rfl) | rfl) | rfl
    · exact ⟨Nat.le_trans (by decide) (show 'a'.toNat ≤ c.toNat from hlow), hhigh⟩
    · exact ⟨Nat.le_trans (by decide) (show 'A'.toNat ≤ c.toNat from hlow),
        Nat.le_trans (show c.toNat ≤ 'Z'.toNat from hhigh) (by decide)⟩
    · simp only [Char.isDigit, Bool.and_eq_true, decide_eq_true_eq] at hdigit
      exact ⟨Nat.le_trans (by decide) (show '0'.toNat ≤ c.toNat from hdigit.1),
        Nat.le_trans (show c.toNat ≤ '9'.toNat from hdigit.2) (by decide)⟩
    all_goals decide
  simp only [Text.isWhiteSpace, Bool.or_eq_false_iff, List.contains_eq_mem, decide_eq_false_iff_not,
    List.mem_cons, List.not_mem_nil, or_false, Bool.and_eq_false_iff]
  omega

theorem letter_not_space {c : Char} (h : isLetter c = true) : Text.isWhiteSpace c = false :=
  name_not_space (by simp [isFilterName, h])

theorem isPathName_isFilterName {c : Char} (h : isPathName c = true) : isFilterName c = true := by
  simp only [isPathName, Bool.or_eq_true, beq_iff_eq] at h
  simp only [isFilterName, Bool.or_eq_true, beq_iff_eq]
  tauto

theorem Name.head {more : Char → Bool} {name : String} (h : Name more name) :
    ∃ c rest, name.toList = c :: rest ∧ Text.isWhiteSpace c = false := by
  cases h with
  | mk hc _ => exact ⟨_, _, String.toList_ofList, letter_not_space hc⟩

/-- No name goes on over a sign. -/
theorem EqSign.head {sign : List Char} (h : EqSign sign) :
    ∃ c rest, sign = c :: rest ∧ isFilterName c = false := by
  cases h with
  | mk hbefore _ _ _ =>
    obtain ⟨c, rest, rfl⟩ := List.exists_cons_of_ne_nil hbefore.ne_nil
    have hc := hbefore.space c List.mem_cons_self
    refine ⟨c, _, rfl, ?_⟩
    cases hname : isFilterName c with
    | false => rfl
    | true => rw [name_not_space hname] at hc; cases hc

/-! ## Filters -/

section Filters

variable {lower : LowerUnits} {resourceType : ResourceType} {s : String}

theorem parseFilter_text {f : Filter} (h : parseFilter lower (.string s) resourceType = .ok (some f)) :
    ∃ text name, Around s.toList text ∧ Comparison isFilterName text name f.value ∧
      OrderedMap.lookup (lowerKey name) (supported resourceType) = some f.attr := by
  have hnullish : (Value.string s).isNullish = false := rfl
  simp only [parseFilter, hnullish, Bool.false_eq_true, if_false] at h
  split at h
  · cases h
  split at h
  · cases h
  split at h
  · cases h
  rename_i name literal hfilter
  split at h
  · cases h
  rename_i attr hattr
  split at h
  · cases h
  rename_i value hvalue
  split at h
  · cases h
  cases h
  simp only [eqFilter, Option.bind_eq_bind, Option.bind_eq_some_iff] at hfilter
  obtain ⟨⟨name', rest⟩, hname, ⟨literal', rest'⟩, hcomparison, hlast⟩ := hfilter
  split at hlast
  case isFalse => cases hlast
  rename_i hempty
  cases hlast
  obtain ⟨hname', htext⟩ := name?_eq_some hname
  obtain ⟨sign, hsign, hrest⟩ := comparison?_eq_some hcomparison
  dsimp only at hrest hempty
  rw [hrest, hempty] at htext
  refine ⟨_, name', around_trim s, ?_, hattr⟩
  rw [htext]
  exact .mk hname' hsign (chars_of_parseLiteral hvalue)

theorem parseFilter_comparison {name : String} {value : List Nat} {attr : FilterAttribute}
    (h : Comparison isFilterName s.toList name value) (hlength : Text.length s ≤ 1024)
    (hattr : OrderedMap.lookup (lowerKey name) (supported resourceType) = some attr)
    (hactive : attr ≠ .active) :
    parseFilter lower (.string s) resourceType = .ok (some ⟨attr, value⟩) := by
  have hnullish : (Value.string s).isNullish = false := rfl
  generalize htext : s.toList = text at h
  cases h with
  | @mk name sign body value hname hsign hbody =>
    have htrim : Text.trim s = s := by
      obtain ⟨c, rest, hc, hspace⟩ := hname.head
      have hlast : s.toList.reverse = '"' :: (name.toList ++ (sign ++ '"' :: body)).reverse := by
        rw [htext]
        simp
      rw [hc, List.cons_append] at htext
      exact trim_of_ends htext hlast hspace (by decide)
    have hne : s ≠ "" := by
      rintro rfl
      have := congrArg List.length htext
      simp at this
    have hfilter : eqFilter s = some (name, body) := by
      have hcomparison := comparison?_sign hsign hbody []
      obtain ⟨c, rest, heq, hc⟩ := hsign.head
      rw [heq] at htext hcomparison
      rw [List.cons_append] at htext hcomparison
      rw [eqFilter, htext, name?_name hname hc]
      simp only [Option.bind_eq_bind, Option.bind_some, hcomparison, if_true]
    simp only [parseFilter, hnullish, Bool.false_eq_true, if_false, hne, htrim, hfilter, hattr,
      parseLiteral_of_chars hbody, hactive, false_and, if_neg (Nat.not_lt.mpr hlength)]

end Filters

/-! ## Paths -/

section Paths

variable {α : Type} {canonical : String → Option α} {s : String}

theorem dotted?_eq_some {cs : List Char} {sub : Option String} (h : dotted? cs = some (sub, [])) :
    SubAttribute cs sub := by
  unfold dotted? at h
  split at h
  · simp only [Option.bind_eq_bind, Option.bind_eq_some_iff] at h
    obtain ⟨⟨name, rest⟩, hname, heq⟩ := h
    cases heq
    obtain ⟨hname', rfl⟩ := name?_eq_some hname
    rw [List.append_nil]
    exact .some hname'
  · cases h
    exact .none

theorem name?_whole {more : Char → Bool} {name : String} (h : Name more name) :
    name? more name.toList = some (name, []) := by
  cases h with
  | @mk d tail hd htail =>
    rw [String.toList_ofList, name?, if_pos hd, List.takeWhile_eq_self_iff.mpr htail,
      List.dropWhile_eq_nil_iff.mpr htail]

theorem dotted?_sub {cs : List Char} {sub : Option String} (h : SubAttribute cs sub) :
    dotted? cs = some (sub, []) := by
  cases h with
  | none => rfl
  | some hname => simp only [dotted?, name?_whole hname, Option.bind_eq_bind, Option.bind_some]

theorem pathExpression_filtered {name filterName : String} {text : List Char} {value : List Nat}
    {sub : Option String} (h : FilteredPath text name filterName value sub)
    (hs : s.toList = text) : ∃ literal, JsonChars literal value ∧
      pathExpression s = some ⟨name, some (filterName, literal), sub⟩ := by
  cases h with
  | mk hname hcomparison hrest =>
    rename_i comparison rest
    cases hcomparison with
    | @mk filterName sign body value hfilter hsign hbody =>
      refine ⟨body, hbody, ?_⟩
      have hbracket : bracket? ('[' :: ((filterName.toList ++ (sign ++ '"' :: (body ++ ['"']))) ++
          ']' :: rest)) = some (some (filterName, body), rest) := by
        have hcomparison := comparison?_sign hsign hbody (']' :: rest)
        obtain ⟨c, tail, rfl, hc⟩ := hsign.head
        have hc' : isPathName c = false := by
          cases hpath : isPathName c with
          | false => rfl
          | true => rw [isPathName_isFilterName hpath] at hc; cases hc
        have hname := @name?_name (tail ++ '"' :: (body ++ '"' :: ']' :: rest)) _ _ _ hfilter hc'
        simp only [List.append_assoc, List.cons_append, List.nil_append] at hcomparison ⊢
        simp only [bracket?, Option.bind_eq_bind, hname, Option.bind_some, hcomparison]
      rw [pathExpression, hs, name?_name hname (by decide)]
      simp only [Option.bind_eq_bind, Option.bind_some, hbracket, dotted?_sub hrest, if_true]

theorem pathExpression_text {name filterName : String} {literal : List Char} {value : List Nat}
    {sub : Option String} (h : pathExpression s = some ⟨name, some (filterName, literal), sub⟩)
    (hvalue : parseLiteral literal = some value) :
    FilteredPath s.toList name filterName value sub := by
  simp only [pathExpression, Option.bind_eq_bind, Option.bind_eq_some_iff] at h
  obtain ⟨⟨name', rest₁⟩, hname, ⟨filter, rest₂⟩, hbracket, ⟨sub', rest₃⟩, hdotted, hlast⟩ := h
  dsimp only at hbracket hdotted hlast
  split at hlast
  case isFalse => cases hlast
  rename_i hempty
  cases hlast
  subst hempty
  obtain ⟨hname', htext⟩ := name?_eq_some hname
  unfold bracket? at hbracket
  split at hbracket
  case h_2 => cases hbracket
  simp only [Option.bind_eq_bind, Option.bind_eq_some_iff] at hbracket
  obtain ⟨⟨filterName', rest₄⟩, hfilter, ⟨literal', rest₅⟩, hcomparison, hclose⟩ := hbracket
  dsimp only at hcomparison hclose
  split at hclose
  case h_2 => cases hclose
  cases hclose
  obtain ⟨hfilter', hrest₄⟩ := name?_eq_some hfilter
  obtain ⟨sign, hsign, hrest₅⟩ := comparison?_eq_some hcomparison
  have hcomparison' := Comparison.mk hfilter' hsign (chars_of_parseLiteral hvalue)
  have hpath := FilteredPath.mk hname' hcomparison' (dotted?_eq_some hdotted)
  rw [htext, hrest₄, hrest₅]
  simpa using hpath

theorem parsePath_text {path : Path α} (h : parsePath canonical (.string s) = .ok path)
    {filterName : String} {value : List Nat} (hfilter : path.filter = some (filterName, value)) :
    ∃ text name, Around s.toList text ∧ FilteredPath text name filterName value path.subAttribute ∧
      canonical name = some path.attr := by
  simp only [parsePath] at h
  split at h
  · cases h
  rename_i found hfound
  split at h
  · cases h
  rename_i attr hattr
  split at h
  · cases h
    cases hfilter
  rename_i filterAttribute literal hmatch
  split at h
  · cases h
  rename_i value' hvalue
  cases h
  cases hfilter
  obtain ⟨name, filter, sub⟩ := found
  dsimp only at hattr hmatch
  subst hmatch
  exact ⟨_, name, around_trim s, pathExpression_text hfound hvalue, hattr⟩

/-- The last character of a path. -/
theorem FilteredPath.last {text : List Char} {name filterName : String} {value : List Nat}
    {sub : Option String} (h : FilteredPath text name filterName value sub) :
    ∃ d last, text.reverse = d :: last ∧ Text.isWhiteSpace d = false := by
  cases h with
  | @mk name filterName comparison rest value sub _ _ hrest =>
    cases hrest with
    | none => exact ⟨']', _, by rw [List.reverse_append, List.reverse_cons, List.reverse_append]; rfl, by decide⟩
    | @some sub hsub =>
      cases hsub with
      | @mk c tail hc htail =>
        have hall : ∀ d ∈ c :: tail, Text.isWhiteSpace d = false := by
          intro d hd
          rcases List.mem_cons.mp hd with rfl | hd
          · exact letter_not_space hc
          · exact name_not_space (isPathName_isFilterName (htail d hd))
        obtain ⟨d, last, hlast⟩ := List.exists_cons_of_ne_nil
          (List.reverse_ne_nil_iff.mpr (List.cons_ne_nil c tail))
        have hsplit : name.toList ++ '[' :: (comparison ++ ']' :: '.' :: (String.ofList (c :: tail)).toList) =
            (name.toList ++ '[' :: (comparison ++ [']', '.'])) ++ (c :: tail) := by
          simp
        have hd := hall d (List.mem_reverse.mp (hlast ▸ List.mem_cons_self))
        exact ⟨d, _, by rw [hsplit, List.reverse_append, hlast, List.cons_append], hd⟩

theorem parsePath_filtered {name filterName : String} {value : List Nat} {sub : Option String}
    (h : FilteredPath s.toList name filterName value sub) {attr : α}
    (hattr : canonical name = some attr) :
    parsePath canonical (.string s) = .ok ⟨attr, some (filterName, value), sub⟩ := by
  obtain ⟨literal, hbody, hfound⟩ := pathExpression_filtered h rfl
  have htrim : Text.trim s = s := by
    obtain ⟨d, last, hlast, hd⟩ := h.last
    generalize htext : s.toList = text at h
    cases h with
    | mk hname _ _ =>
      obtain ⟨c, rest, hc, hspace⟩ := hname.head
      rw [hc, List.cons_append] at htext
      exact trim_of_ends htext hlast hspace hd
  simp only [parsePath, htrim, hfound, hattr, parseLiteral_of_chars hbody]

end Paths

/-! ## The law -/

theorem isLetter_of_lower {c : Char} (h : isLetter (asciiLower c) = true) : isLetter c = true := by
  unfold asciiLower at h
  split at h
  · rename_i hupper
    simp [isLetter, hupper]
  · exact h

theorem isFilterName_of_lower {c : Char} (h : isFilterName (asciiLower c) = true) :
    isFilterName c = true := by
  unfold asciiLower at h
  split at h
  · rename_i hupper
    simp [isFilterName, isLetter, hupper]
  · exact h

theorem supported_name {resourceType : ResourceType} {name : String} {attr : FilterAttribute}
    (h : OrderedMap.lookup (lowerKey name) (supported resourceType) = some attr) :
    Name isFilterName name := by
  -- no character but a letter is changed by the mapping to lower case
  have hkey : ∀ entry ∈ supported resourceType, ∃ c rest, entry.1.toList = c :: rest ∧
      isLetter c = true ∧ rest.all isFilterName = true := by
    cases resourceType <;>
      simp only [supported, List.forall_mem_cons, List.not_mem_nil, false_implies, implies_true,
        and_true] <;>
      exact ⟨⟨_, _, rfl, by decide, by decide⟩, ⟨_, _, rfl, by decide, by decide⟩,
        ⟨_, _, rfl, by decide, by decide⟩, ⟨_, _, rfl, by decide, by decide⟩⟩
  obtain ⟨c, rest, hlist, hc, hrest⟩ := hkey _ (OrderedMap.mem_of_lookup h)
  dsimp only [lowerKey] at hlist
  rw [String.toList_ofList] at hlist
  obtain ⟨d, tail, hname, rfl, rfl⟩ := List.map_eq_cons_iff.mp hlist
  have heq : name = String.ofList (d :: tail) := by rw [← hname, String.ofList_toList]
  rw [heq]
  refine .mk (isLetter_of_lower hc) fun x hx => ?_
  exact isFilterName_of_lower (List.all_eq_true.mp hrest _ (List.mem_map_of_mem hx))

/-- `name` and `eq` before a literal. -/
theorem comparison_stringify {more : Char → Bool} {name : String} (hname : Name more name)
    (value : List UInt16) : Comparison more
      (name ++ " eq " ++ stringify (value.map UInt16.toNat)).toList name (value.map UInt16.toNat) := by
  have hblank : Blank [' '] := ⟨List.cons_ne_nil _ _, List.all_eq_true.mp (by decide)⟩
  have hunits : ∀ u ∈ value.map UInt16.toNat, u < 0x10000 := by
    intro u hu
    obtain ⟨x, -, rfl⟩ := List.mem_map.mp hu
    exact x.toNat_lt
  have h := Comparison.mk hname (.mk hblank (.inl rfl) (.inl rfl) hblank) (quote_chars hunits)
  have heq : " eq ".toList = [' ', 'e', 'q', ' '] := by decide
  rw [String.toList_append, String.toList_append, heq, stringify, String.toList_ofList]
  simpa using h

/-- Values come back as they were written, and nothing of an input is ignored but the white space
around it. A value is any list of code units; an input has no lone surrogate but as an escape. -/
structure Exact (lower : LowerUnits) (lowerCase : LowerCase) : Prop where
  filterValue : ∀ {resourceType : ResourceType} {name : String} {attr : FilterAttribute}
    (value : List UInt16), OrderedMap.lookup (lowerKey name) (supported resourceType) = some attr →
    attr ≠ .active → Text.length (name ++ " eq " ++ stringify (value.map UInt16.toNat)) ≤ 1024 →
    parseFilter lower (.string (name ++ " eq " ++ stringify (value.map UInt16.toNat)))
      resourceType = .ok (some ⟨attr, value.map UInt16.toNat⟩)
  pathValue : ∀ value : List UInt16, parsePath (canonicalGroupAttribute lowerCase)
    (.string ("members[value eq " ++ stringify (value.map UInt16.toNat) ++ "]")) =
      .ok ⟨.members, some ("value", value.map UInt16.toNat), none⟩
  filterText : ∀ {resourceType : ResourceType} {s : String} {f : Filter},
    parseFilter lower (.string s) resourceType = .ok (some f) →
    ∃ text name, Around s.toList text ∧ Comparison isFilterName text name f.value ∧
      OrderedMap.lookup (lowerKey name) (supported resourceType) = some f.attr
  pathText : ∀ {α : Type} {canonical : String → Option α} {s : String} {path : Path α},
    parsePath canonical (.string s) = .ok path → ∀ {filterName : String} {value : List Nat},
    path.filter = some (filterName, value) →
    ∃ text name, Around s.toList text ∧ FilteredPath text name filterName value path.subAttribute ∧
      canonical name = some path.attr

theorem literals_exact (lower : LowerUnits) (lowerCase : LowerCase) : Exact lower lowerCase := by
  constructor
  case filterValue =>
    intro resourceType name attr value hattr hactive hlength
    exact parseFilter_comparison (comparison_stringify (supported_name hattr) value) hlength hattr hactive
  case pathValue =>
    intro value
    have hmembers : Name isPathName "members" :=
      @Name.mk isPathName 'm' "embers".toList (by decide) (List.all_eq_true.mp (by decide))
    have hvalue : Name isPathName "value" :=
      @Name.mk isPathName 'v' "alue".toList (by decide) (List.all_eq_true.mp (by decide))
    have h := FilteredPath.mk hmembers (comparison_stringify hvalue value) .none
    have htext : ("members[value eq " ++ stringify (value.map UInt16.toNat) ++ "]").toList =
        "members".toList ++
          '[' :: (("value" ++ " eq " ++ stringify (value.map UInt16.toNat)).toList ++ [']']) := by
      have hopen : "members[value eq ".toList =
          "members".toList ++ '[' :: ("value".toList ++ " eq ".toList) := by decide
      have hclose : "]".toList = [']'] := by decide
      rw [String.toList_append, String.toList_append, String.toList_append, String.toList_append, hopen,
        hclose]
      simp only [List.append_assoc, List.cons_append]
    rw [← htext] at h
    exact parsePath_filtered h (canonicalGroupAttribute_key lowerCase .members)
  case filterText => exact parseFilter_text
  case pathText => exact parsePath_text

/-- The text of this filter ends with a blank, not with its literal. -/
theorem trailing_blank :
    parseFilter asciiUnits (.string "id eq \"x\" ") .user = .ok (some ⟨.id, [0x78]⟩) ∧
      ∀ name value, ¬ Comparison isFilterName "id eq \"x\" ".toList name value := by
  refine ⟨rfl, fun name value hcomparison => ?_⟩
  have hlast : "id eq \"x\" ".toList.getLast? = some ' ' := by decide
  generalize "id eq \"x\" ".toList = text at hcomparison hlast
  cases hcomparison with
  | mk _ _ _ =>
    rw [List.getLast?_append, List.getLast?_append, ← List.cons_append, List.getLast?_concat] at hlast
    cases hlast

end AuthMe.Scim

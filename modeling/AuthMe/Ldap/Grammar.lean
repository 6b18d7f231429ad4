import Mathlib.Data.List.Basic
import Mathlib.Data.List.TakeWhile

/-!
# Search filters and their texts

The string representation of LDAP search filters (RFC 4515), with the attribute descriptions of RFC 4512.
`Derives s f` is a derivation of the text `s` for the filter `f`. The value of an assertion is a string of
octets; a text denotes it by the UTF-8 encoding of its characters and by escapes (`decodeValue`).

`Denotes s f` says that `f` is the one filter that the text has a derivation for. The rules for it go by the
shape of the text: `denotes_equality`, `denotes_and`, `denotes_or`. They rest on the parentheses: no filter
text is a proper prefix of another one (`Derives.prefix_eq`).
-/

namespace AuthMe.Ldap

abbrev Octets := List UInt8

/-- The UTF-8 encoding of characters. -/
def utf8 (s : List Char) : Octets := s.flatMap String.utf8EncodeChar

/-! ## Filters -/

inductive FilterType
  | equal
  | approx
  | greaterOrEqual
  | lessOrEqual
  deriving DecidableEq

inductive Item
  | simple (attr : String) (type : FilterType) (value : Octets)
  | present (attr : String)
  | substring (attr : String) (initial : Octets) (any : List Octets) (final : Octets)
  | extensible (attr : Option String) (dn : Bool) (rule : Option String) (value : Octets)
  deriving DecidableEq

inductive Filter
  | and (filters : List Filter)
  | or (filters : List Filter)
  | not (filter : Filter)
  | item (item : Item)

abbrev Filter.equality (attr : String) (value : Octets) : Filter := .item (.simple attr .equal value)

/-! ## Values -/

def hexDigit (c : Char) : Option Nat :=
  if '0' ≤ c ∧ c ≤ '9' then some (c.toNat - '0'.toNat)
  else if 'a' ≤ c ∧ c ≤ 'f' then some (c.toNat - 'a'.toNat + 10)
  else if 'A' ≤ c ∧ c ≤ 'F' then some (c.toNat - 'A'.toNat + 10)
  else none

/-- The characters that stand for themselves in no value. -/
def isSpecial (c : Char) : Bool := ['\x00', '(', ')', '*', '\\'].contains c

/-- `valueencoding`: the octets that a text stands for. -/
def decodeValue : List Char → Option Octets
  | [] => some []
  | '\\' :: a :: b :: rest =>
    match hexDigit a, hexDigit b with
    | some high, some low => (decodeValue rest).map (UInt8.ofNat (16 * high + low) :: ·)
    | _, _ => none
  | c :: rest =>
    if isSpecial c then none else (decodeValue rest).map (String.utf8EncodeChar c ++ ·)

/-! ## Attribute descriptions -/

def isAlpha (c : Char) : Bool := ('a' ≤ c && c ≤ 'z') || ('A' ≤ c && c ≤ 'Z')

def isDigit (c : Char) : Bool := '0' ≤ c && c ≤ '9'

/-- `keychar`. -/
def isKeyChar (c : Char) : Bool := isAlpha c || isDigit c || c = '-'

/-- `descr`. -/
def isDescr : List Char → Bool
  | [] => false
  | c :: rest => isAlpha c && rest.all isKeyChar

/-- `number`. -/
def isNumber (s : List Char) : Bool :=
  s ≠ [] && s.all isDigit && (s.length = 1 || s.head? ≠ some '0')

/-- `numericoid`. -/
inductive NumericOid : List Char → Prop
  | two {s t : List Char} (hs : isNumber s = true) (ht : isNumber t = true) :
      NumericOid (s ++ '.' :: t)
  | more {s t : List Char} (hs : isNumber s = true) (ht : NumericOid t) : NumericOid (s ++ '.' :: t)

def Oid (s : List Char) : Prop := isDescr s = true ∨ NumericOid s

/-- `options`. -/
inductive Options : List Char → Prop
  | nil : Options []
  | cons {s t : List Char} (hne : s ≠ []) (hs : s.all isKeyChar = true) (ht : Options t) :
      Options (';' :: s ++ t)

/-- `attributedescription`. -/
inductive Attr : List Char → Prop
  | mk {oid options : List Char} (hoid : Oid oid) (hoptions : Options options) :
      Attr (oid ++ options)

/-! ## The grammar -/

/-- `filtertype`. -/
def FilterType.text : FilterType → List Char
  | .equal => ['=']
  | .approx => ['~', '=']
  | .greaterOrEqual => ['>', '=']
  | .lessOrEqual => ['<', '=']

/-- `any`, after its first asterisk. -/
inductive DerivesAny : List Char → List Octets → Prop
  | nil : DerivesAny [] []
  | cons {s t : List Char} {value : Octets} {values : List Octets}
      (hs : decodeValue s = some value) (ht : DerivesAny t values) :
      DerivesAny (s ++ '*' :: t) (value :: values)

/-- `[dnattrs] [matchingrule]`. -/
inductive DerivesRule : List Char → Bool → Option String → Prop
  | rule {s : List Char} (hs : Oid s) : DerivesRule (':' :: s) false (some (String.ofList s))
  | dnRule {d n : Char} {s : List Char} (hd : d = 'd' ∨ d = 'D') (hn : n = 'n' ∨ n = 'N')
      (hs : Oid s) : DerivesRule (':' :: d :: n :: ':' :: s) true (some (String.ofList s))
  | dn {d n : Char} (hd : d = 'd' ∨ d = 'D') (hn : n = 'n' ∨ n = 'N') :
      DerivesRule [':', d, n] true none
  | nil : DerivesRule [] false none

inductive DerivesItem : List Char → Item → Prop
  | simple {s t : List Char} {type : FilterType} {value : Octets} (hs : Attr s)
      (ht : decodeValue t = some value) :
      DerivesItem (s ++ (type.text ++ t)) (.simple (String.ofList s) type value)
  | present {s : List Char} (hs : Attr s) :
      DerivesItem (s ++ ['=', '*']) (.present (String.ofList s))
  /-- A lone asterisk denotes a presence filter. -/
  | substring {s t u v : List Char} {initial final : Octets} {any : List Octets} (hs : Attr s)
      (ht : decodeValue t = some initial) (hu : DerivesAny u any) (hv : decodeValue v = some final)
      (hne : t ++ u ++ v ≠ []) :
      DerivesItem (s ++ '=' :: (t ++ '*' :: (u ++ v)))
        (.substring (String.ofList s) initial any final)
  | extensible {s r t : List Char} {dn : Bool} {rule : Option String} {value : Octets} (hs : Attr s)
      (hr : DerivesRule r dn rule) (ht : decodeValue t = some value) :
      DerivesItem (s ++ (r ++ ':' :: '=' :: t)) (.extensible (some (String.ofList s)) dn rule value)
  | ruleOnly {r t : List Char} {dn : Bool} {rule : String} {value : Octets}
      (hr : DerivesRule r dn (some rule)) (ht : decodeValue t = some value) :
      DerivesItem (r ++ ':' :: '=' :: t) (.extensible none dn (some rule) value)

mutual

inductive Derives : List Char → Filter → Prop
  | and {s : List Char} {fs : List Filter} (h : DerivesList s fs) :
      Derives ('(' :: ('&' :: s ++ [')'])) (.and fs)
  | or {s : List Char} {fs : List Filter} (h : DerivesList s fs) :
      Derives ('(' :: ('|' :: s ++ [')'])) (.or fs)
  | not {s : List Char} {f : Filter} (h : Derives s f) :
      Derives ('(' :: ('!' :: s ++ [')'])) (.not f)
  | item {s : List Char} {i : Item} (h : DerivesItem s i) :
      Derives ('(' :: (s ++ [')'])) (.item i)

/-- `filterlist`. -/
inductive DerivesList : List Char → List Filter → Prop
  | one {s : List Char} {f : Filter} (h : Derives s f) : DerivesList s [f]
  | cons {s t : List Char} {f : Filter} {fs : List Filter} (h : Derives s f)
      (ht : DerivesList t fs) : DerivesList (s ++ t) (f :: fs)

end

/-- The filter is the one that the text has a derivation for. -/
def Denotes (s : List Char) (f : Filter) : Prop := ∀ g, Derives s g ↔ g = f

/-! ## Characters -/

/-- The characters of attribute descriptions. -/
def isAttrChar (c : Char) : Bool := isKeyChar c || c = '.' || c = ';'

theorem isAlpha_isKeyChar {c : Char} (h : isAlpha c = true) : isKeyChar c = true := by
  simp [isKeyChar, h]

theorem isKeyChar_isAttrChar {c : Char} (h : isKeyChar c = true) : isAttrChar c = true := by
  simp [isAttrChar, h]

theorem isNumber_attr {s : List Char} (h : isNumber s = true) : ∀ c ∈ s, isAttrChar c = true := by
  intro c hc
  have hdigit : isDigit c = true := by
    simp only [isNumber, Bool.and_eq_true] at h
    exact List.all_eq_true.mp h.1.2 c hc
  simp [isAttrChar, isKeyChar, hdigit]

theorem isDescr_attr {s : List Char} (h : isDescr s = true) : ∀ c ∈ s, isAttrChar c = true := by
  cases s with
  | nil => cases h
  | cons d rest =>
    simp only [isDescr, Bool.and_eq_true, List.all_eq_true] at h
    intro c hc
    rcases List.mem_cons.mp hc with rfl | hc
    · exact isKeyChar_isAttrChar (isAlpha_isKeyChar h.1)
    · exact isKeyChar_isAttrChar (h.2 c hc)

theorem NumericOid.attr {s : List Char} (h : NumericOid s) : ∀ c ∈ s, isAttrChar c = true := by
  induction h with
  | two hs ht =>
    intro c hc
    rcases List.mem_append.mp hc with hc | hc
    · exact isNumber_attr hs c hc
    · rcases List.mem_cons.mp hc with rfl | hc
      · rfl
      · exact isNumber_attr ht c hc
  | more hs _ ih =>
    intro c hc
    rcases List.mem_append.mp hc with hc | hc
    · exact isNumber_attr hs c hc
    · rcases List.mem_cons.mp hc with rfl | hc
      · rfl
      · exact ih c hc

theorem Oid.attr {s : List Char} (h : Oid s) : ∀ c ∈ s, isAttrChar c = true := by
  rcases h with h | h
  · exact isDescr_attr h
  · exact h.attr

theorem Options.attr {s : List Char} (h : Options s) : ∀ c ∈ s, isAttrChar c = true := by
  induction h with
  | nil => nofun
  | cons _ hs _ ih =>
    intro c hc
    rcases List.mem_cons.mp hc with rfl | hc
    · rfl
    · rcases List.mem_append.mp hc with hc | hc
      · exact isKeyChar_isAttrChar (List.all_eq_true.mp hs c hc)
      · exact ih c hc

theorem Attr.attr {s : List Char} (h : Attr s) : ∀ c ∈ s, isAttrChar c = true := by
  cases h with
  | mk hoid hoptions =>
    intro c hc
    rcases List.mem_append.mp hc with hc | hc
    · exact hoid.attr c hc
    · exact hoptions.attr c hc

theorem NumericOid.ne_nil {s : List Char} (h : NumericOid s) : s ≠ [] := by
  cases h <;> simp

theorem Attr.ne_nil {s : List Char} (h : Attr s) : s ≠ [] := by
  cases h with
  | mk hoid _ =>
    rcases hoid with hdescr | hnumeric
    · rintro heq
      rw [(List.append_eq_nil_iff.mp heq).1] at hdescr
      cases hdescr
    · intro heq
      exact hnumeric.ne_nil (List.append_eq_nil_iff.mp heq).1

theorem attr_of_descr {s : List Char} (h : isDescr s = true) : Attr s := by
  have := Attr.mk (.inl h) Options.nil
  rwa [List.append_nil] at this

/-! ## Values decode -/

theorem hexDigit_not_special {c : Char} {n : Nat} (h : hexDigit c = some n) :
    isSpecial c = false := by
  cases hspecial : isSpecial c with
  | false => rfl
  | true =>
    simp only [isSpecial, List.contains_iff_mem, List.mem_cons, List.not_mem_nil, or_false] at hspecial
    rcases hspecial with rfl | rfl | rfl | rfl | rfl <;> cases h

/-- A value holds no special character but the one that escapes. -/
theorem decodeValue_mem {s : List Char} {value : Octets} (h : decodeValue s = some value) :
    ∀ c ∈ s, c = '\\' ∨ isSpecial c = false := by
  induction s using decodeValue.induct generalizing value with
  | case1 => nofun
  | case2 a b rest low high hlow hhigh ih =>
    simp only [decodeValue, hhigh, hlow] at h
    obtain ⟨value', hvalue', -⟩ := Option.map_eq_some_iff.mp h
    intro c hc
    simp only [List.mem_cons] at hc
    rcases hc with rfl | rfl | rfl | hc
    · exact .inl rfl
    · exact .inr (hexDigit_not_special hhigh)
    · exact .inr (hexDigit_not_special hlow)
    · exact ih hvalue' c hc
  | case3 a b rest hno =>
    simp only [decodeValue] at h
    cases h
  | case4 c rest hno hspecial =>
    rw [decodeValue, if_pos hspecial] at h
    · cases h
    · exact hno
  | case5 c rest hno hspecial ih =>
    rw [decodeValue, if_neg hspecial] at h
    · obtain ⟨value', hvalue', -⟩ := Option.map_eq_some_iff.mp h
      intro d hd
      rcases List.mem_cons.mp hd with rfl | hd
      · exact .inr (by simpa using hspecial)
      · exact ih hvalue' d hd
    · exact hno

theorem decodeValue_plain {s : List Char} {value : Octets} (h : decodeValue s = some value) :
    '(' ∉ s ∧ ')' ∉ s ∧ '*' ∉ s := by
  refine ⟨fun hc => ?_, fun hc => ?_, fun hc => ?_⟩ <;>
    rcases decodeValue_mem h _ hc with heq | heq <;> cases heq

/-! ## Parentheses -/

/-- What is left after the parenthesis that closes `depth` open ones. -/
def closing : Nat → List Char → Option (List Char)
  | _, [] => none
  | depth, c :: rest =>
    if c = '(' then closing (depth + 1) rest
    else if c = ')' then if depth = 1 then some rest else closing (depth - 1) rest
    else closing depth rest

/-- Inside of parentheses the text leaves the depth as it is. -/
def Balanced (s : List Char) : Prop :=
  ∀ depth rest, 1 ≤ depth → closing depth (s ++ rest) = closing depth rest

theorem Balanced.nil : Balanced [] := fun _ _ _ => rfl

theorem Balanced.append {s t : List Char} (hs : Balanced s) (ht : Balanced t) :
    Balanced (s ++ t) := by
  intro depth rest hdepth
  rw [List.append_assoc, hs depth _ hdepth, ht depth _ hdepth]

theorem Balanced.parens {s : List Char} (hs : Balanced s) : Balanced ('(' :: (s ++ [')'])) := by
  intro depth rest hdepth
  have hclose : closing (depth + 1) (')' :: rest) = closing depth rest := by
    rw [closing, if_neg (by decide), if_pos rfl, if_neg (by omega), Nat.add_sub_cancel]
  simp only [List.cons_append, List.append_assoc, closing, if_true, List.nil_append]
  rw [hs (depth + 1) _ (by omega), hclose]

theorem Balanced.of_plain {s : List Char} (hopen : '(' ∉ s) (hclose : ')' ∉ s) : Balanced s := by
  induction s with
  | nil => exact .nil
  | cons c s ih =>
    simp only [List.mem_cons, not_or] at hopen hclose
    intro depth rest hdepth
    rw [List.cons_append, closing, if_neg (Ne.symm hopen.1), if_neg (Ne.symm hclose.1)]
    exact ih hopen.2 hclose.2 depth rest hdepth

theorem Balanced.of_attr {s : List Char} (h : ∀ c ∈ s, isAttrChar c = true) : Balanced s := by
  refine .of_plain (fun hc => ?_) fun hc => ?_ <;>
    exact absurd (h _ hc) (by decide)

theorem Balanced.of_value {s : List Char} {value : Octets} (h : decodeValue s = some value) :
    Balanced s :=
  .of_plain (decodeValue_plain h).1 (decodeValue_plain h).2.1

theorem Balanced.cons {c : Char} {s : List Char} (hopen : c ≠ '(') (hclose : c ≠ ')')
    (hs : Balanced s) : Balanced (c :: s) := by
  have hc : Balanced [c] := .of_plain (by simpa using hopen.symm) (by simpa using hclose.symm)
  exact hc.append hs

theorem DerivesAny.balanced {s : List Char} {values : List Octets} (h : DerivesAny s values) :
    Balanced s := by
  induction h with
  | nil => exact .nil
  | cons hs _ ih => exact (Balanced.of_value hs).append (.cons (by decide) (by decide) ih)

theorem DerivesRule.balanced {s : List Char} {dn : Bool} {rule : Option String}
    (h : DerivesRule s dn rule) : Balanced s := by
  cases h with
  | rule hs => exact .cons (by decide) (by decide) (.of_attr hs.attr)
  | dnRule hd hn hs =>
    refine .cons (by decide) (by decide) ?_
    rcases hd with rfl | rfl <;> rcases hn with rfl | rfl <;>
      exact .cons (by decide) (by decide) (.cons (by decide) (by decide)
        (.cons (by decide) (by decide) (.of_attr hs.attr)))
  | dn hd hn =>
    rcases hd with rfl | rfl <;> rcases hn with rfl | rfl <;>
      exact .of_plain (by decide) (by decide)
  | nil => exact .nil

theorem DerivesItem.balanced {s : List Char} {i : Item} (h : DerivesItem s i) : Balanced s := by
  cases h with
  | @simple s t type value hs ht =>
    have htype : Balanced type.text := by
      cases type <;> exact .of_plain (by decide) (by decide)
    exact (Balanced.of_attr hs.attr).append (htype.append (.of_value ht))
  | present hs => exact (Balanced.of_attr hs.attr).append (.of_plain (by decide) (by decide))
  | substring hs ht hu hv _ =>
    exact (Balanced.of_attr hs.attr).append (.cons (by decide) (by decide)
      ((Balanced.of_value ht).append (.cons (by decide) (by decide)
        (hu.balanced.append (.of_value hv)))))
  | extensible hs hr ht =>
    exact (Balanced.of_attr hs.attr).append (hr.balanced.append
      (.cons (by decide) (by decide) (.cons (by decide) (by decide) (.of_value ht))))
  | ruleOnly hr ht =>
    exact hr.balanced.append
      (.cons (by decide) (by decide) (.cons (by decide) (by decide) (.of_value ht)))

mutual

theorem Derives.parens {s : List Char} {f : Filter} (h : Derives s f) :
    ∃ t, s = '(' :: (t ++ [')']) ∧ Balanced t := by
  cases h with
  | and h => exact ⟨_, rfl, .cons (by decide) (by decide) h.balanced⟩
  | or h => exact ⟨_, rfl, .cons (by decide) (by decide) h.balanced⟩
  | not h =>
    obtain ⟨t, rfl, ht⟩ := h.parens
    exact ⟨_, rfl, .cons (by decide) (by decide) ht.parens⟩
  | item h => exact ⟨_, rfl, h.balanced⟩

theorem DerivesList.balanced {s : List Char} {fs : List Filter} (h : DerivesList s fs) :
    Balanced s := by
  cases h with
  | one h =>
    obtain ⟨t, rfl, ht⟩ := h.parens
    exact ht.parens
  | cons h ht =>
    obtain ⟨t, rfl, hbalanced⟩ := h.parens
    exact hbalanced.parens.append ht.balanced

end

theorem DerivesList.ne_nil {s : List Char} {fs : List Filter} (h : DerivesList s fs) : s ≠ [] := by
  cases h with
  | one h => obtain ⟨t, rfl, -⟩ := h.parens; exact List.cons_ne_nil _ _
  | cons h _ => obtain ⟨t, rfl, -⟩ := h.parens; exact List.cons_ne_nil _ _

/-- No filter text is a proper prefix of another one. -/
theorem Derives.prefix_eq {s s' r r' : List Char} {f f' : Filter} (h : Derives s f)
    (h' : Derives s' f') (heq : s ++ r = s' ++ r') : s = s' ∧ r = r' := by
  obtain ⟨t, rfl, ht⟩ := h.parens
  obtain ⟨t', rfl, ht'⟩ := h'.parens
  have hrest : ∀ u v, Balanced u → closing 1 (u ++ ')' :: v) = some v := by
    intro u v hu
    rw [hu 1 _ (by omega)]
    simp [closing]
  simp only [List.cons_append, List.append_assoc, List.nil_append, List.cons.injEq, true_and] at heq
  have hr : r = r' := by
    have := congrArg (closing 1) heq
    rw [hrest t r ht, hrest t' r' ht'] at this
    exact Option.some.inj this
  subst hr
  exact ⟨by rw [List.append_cancel_right heq], rfl⟩

/-! ## What a text denotes -/

theorem split_eq {p : Char → Bool} {s s' : List Char} {c c' : Char} {r r' : List Char}
    (hs : ∀ d ∈ s, p d = true) (hs' : ∀ d ∈ s', p d = true) (hc : p c = false) (hc' : p c' = false)
    (heq : s ++ c :: r = s' ++ c' :: r') : s = s' ∧ c = c' ∧ r = r' := by
  have htake : ∀ (t : List Char) d u, (∀ x ∈ t, p x = true) → p d = false →
      (t ++ d :: u).takeWhile p = t := by
    intro t d u ht hd
    rw [List.takeWhile_append_of_pos ht, List.takeWhile_cons_of_neg (by simp [hd]), List.append_nil]
  have hfirst := congrArg (List.takeWhile p) heq
  rw [htake s c r hs hc, htake s' c' r' hs' hc'] at hfirst
  subst hfirst
  have hrest := List.append_cancel_left heq
  exact ⟨rfl, (List.cons.inj hrest).1, (List.cons.inj hrest).2⟩

/-- A description, an equals sign and a value: an equality, whatever the value is. -/
theorem derivesItem_equality {s t : List Char} {value : Octets} (hs : Attr s)
    (ht : decodeValue t = some value) {i : Item} :
    DerivesItem (s ++ '=' :: t) i ↔ i = .simple (String.ofList s) .equal value := by
  constructor
  case mpr =>
    rintro rfl
    exact @DerivesItem.simple s t .equal value hs ht
  intro h
  generalize htext : s ++ '=' :: t = text at h
  have hstar := (decodeValue_plain ht).2.2
  cases h with
  | @simple s' t' type value' hs' ht' =>
    have hsplit : ∃ c r, type.text ++ t' = c :: r ∧ isAttrChar c = false ∧
        (c = '=' → type = .equal ∧ r = t') := by
      cases type
      · exact ⟨_, _, rfl, by decide, fun _ => ⟨rfl, rfl⟩⟩
      all_goals exact ⟨_, _, rfl, by decide, fun h => absurd h (by decide)⟩
    obtain ⟨c, r, hr, hc, hequal⟩ := hsplit
    rw [hr] at htext
    obtain ⟨rfl, hc', rfl⟩ := split_eq hs.attr hs'.attr (by decide) hc htext
    obtain ⟨rfl, rfl⟩ := hequal hc'.symm
    cases ht.symm.trans ht'
    rfl
  | present hs' =>
    obtain ⟨-, -, rfl⟩ := split_eq hs.attr hs'.attr (by decide) (by decide) htext
    exact absurd List.mem_cons_self hstar
  | substring hs' _ _ _ _ =>
    obtain ⟨-, -, rfl⟩ := split_eq hs.attr hs'.attr (by decide) (by decide) htext
    exact absurd (List.mem_append_right _ List.mem_cons_self) hstar
  | @extensible s' r t' dn rule value' hs' hr ht' =>
    -- a colon follows the description
    have hcolon : ∃ u, r ++ ':' :: '=' :: t' = ':' :: u := by
      cases hr <;> exact ⟨_, rfl⟩
    obtain ⟨u, hu⟩ := hcolon
    rw [hu] at htext
    obtain ⟨-, h, -⟩ := split_eq hs.attr hs'.attr (by decide) (by decide) htext
    exact absurd h (by decide)
  | @ruleOnly r t' dn rule value' hr ht' =>
    have hcolon : ∃ u, r ++ ':' :: '=' :: t' = ':' :: u := by
      cases hr <;> exact ⟨_, rfl⟩
    obtain ⟨u, hu⟩ := hcolon
    obtain ⟨c, s, rfl⟩ := List.exists_cons_of_ne_nil hs.ne_nil
    rw [hu] at htext
    have hattr := hs.attr c List.mem_cons_self
    rw [(List.cons.inj htext).1] at hattr
    exact absurd hattr (by decide)

/-- The first character of an item. -/
theorem DerivesItem.head {s : List Char} {i : Item} (h : DerivesItem s i) :
    ∃ c r, s = c :: r ∧ (isAttrChar c = true ∨ c = ':') := by
  have hattr : ∀ {s : List Char} t, Attr s →
      ∃ c r, s ++ t = c :: r ∧ (isAttrChar c = true ∨ c = ':') := by
    intro s t hs
    obtain ⟨c, s, rfl⟩ := List.exists_cons_of_ne_nil hs.ne_nil
    exact ⟨c, s ++ t, rfl, .inl (hs.attr c List.mem_cons_self)⟩
  cases h with
  | simple hs _ => exact hattr _ hs
  | present hs => exact hattr _ hs
  | substring hs => exact hattr _ hs
  | extensible hs => exact hattr _ hs
  | ruleOnly hr _ => cases hr <;> exact ⟨_, _, rfl, .inr rfl⟩

theorem denotes_equality {s t : List Char} {value : Octets} (hs : Attr s)
    (ht : decodeValue t = some value) :
    Denotes ('(' :: (s ++ '=' :: t ++ [')'])) (.equality (String.ofList s) value) := by
  intro g
  obtain ⟨c, s', rfl⟩ := List.exists_cons_of_ne_nil hs.ne_nil
  have hc := hs.attr c List.mem_cons_self
  constructor
  · intro h
    generalize htext : '(' :: ((c :: s') ++ '=' :: t ++ [')']) = text at h
    -- no description begins with the sign of a connective
    cases h with
    | and _ => rw [(List.cons.inj (List.cons.inj htext).2).1] at hc; exact absurd hc (by decide)
    | or _ => rw [(List.cons.inj (List.cons.inj htext).2).1] at hc; exact absurd hc (by decide)
    | not _ => rw [(List.cons.inj (List.cons.inj htext).2).1] at hc; exact absurd hc (by decide)
    | item hitem =>
      have := List.append_cancel_right (List.cons.inj htext).2
      rw [← this] at hitem
      rw [(derivesItem_equality hs ht).mp hitem]
  · rintro rfl
    exact .item ((derivesItem_equality hs ht).mpr rfl)

/-- Texts that denote filters, one after the other. -/
theorem derivesList_iff {texts : List (List Char)} {filters : List Filter}
    (h : List.Forall₂ Denotes texts filters) (hne : texts ≠ []) {fs : List Filter} :
    DerivesList texts.flatten fs ↔ fs = filters := by
  induction h generalizing fs with
  | nil => exact absurd rfl hne
  | @cons s f texts filters hs hrest ih =>
    have hself : Derives s f := (hs f).mpr rfl
    rw [List.flatten_cons]
    cases hrest with
    | nil =>
      rw [List.flatten_nil, List.append_nil]
      constructor
      · intro h
        cases h with
        | one h => rw [(hs _).mp h]
        | @cons s' t f' fs' h ht =>
          -- a proper prefix of the text would be a filter
          have heq : s' ++ t = (s' ++ t) ++ [] := by rw [List.append_nil]
          obtain ⟨-, ht'⟩ := h.prefix_eq hself heq
          exact absurd ht' ht.ne_nil
      · rintro rfl
        exact .one hself
    | @cons s₂ f₂ texts filters hs₂ hrest =>
      have ih := fun {fs} => @ih (by simp) fs
      constructor
      · intro h
        generalize htext : s ++ (s₂ :: texts).flatten = text at h
        cases h with
        | one h =>
          obtain ⟨-, hnil⟩ := h.prefix_eq hself (r := []) (by rw [List.append_nil, htext])
          obtain ⟨u, hu, -⟩ := ((hs₂ f₂).mpr rfl).parens
          rw [List.flatten_cons, hu] at hnil
          cases hnil
        | cons h ht =>
          obtain ⟨rfl, rfl⟩ := h.prefix_eq hself htext.symm
          rw [(hs _).mp h, ih.mp ht]
      · rintro rfl
        exact .cons hself (ih.mpr rfl)

section Connectives

variable {texts : List (List Char)} {filters : List Filter}

theorem denotes_and (h : List.Forall₂ Denotes texts filters) (hne : texts ≠ []) :
    Denotes ('(' :: ('&' :: texts.flatten ++ [')'])) (.and filters) := by
  intro g
  constructor
  · intro hg
    generalize htext : '(' :: ('&' :: texts.flatten ++ [')']) = text at hg
    cases hg with
    | and hlist =>
      have := List.append_cancel_right (List.cons.inj htext).2
      rw [← (List.cons.inj this).2] at hlist
      rw [(derivesList_iff h hne).mp hlist]
    | or _ => exact absurd (List.cons.inj (List.cons.inj htext).2).1 (by decide)
    | not _ => exact absurd (List.cons.inj (List.cons.inj htext).2).1 (by decide)
    | item hitem =>
      obtain ⟨c, r, rfl, hc⟩ := hitem.head
      rw [← (List.cons.inj (List.cons.inj htext).2).1] at hc
      rcases hc with hc | hc <;> exact absurd hc (by decide)
  · rintro rfl
    exact .and ((derivesList_iff h hne).mpr rfl)

theorem denotes_or (h : List.Forall₂ Denotes texts filters) (hne : texts ≠ []) :
    Denotes ('(' :: ('|' :: texts.flatten ++ [')'])) (.or filters) := by
  intro g
  constructor
  · intro hg
    generalize htext : '(' :: ('|' :: texts.flatten ++ [')']) = text at hg
    cases hg with
    | or hlist =>
      have := List.append_cancel_right (List.cons.inj htext).2
      rw [← (List.cons.inj this).2] at hlist
      rw [(derivesList_iff h hne).mp hlist]
    | and _ => exact absurd (List.cons.inj (List.cons.inj htext).2).1 (by decide)
    | not _ => exact absurd (List.cons.inj (List.cons.inj htext).2).1 (by decide)
    | item hitem =>
      obtain ⟨c, r, rfl, hc⟩ := hitem.head
      rw [← (List.cons.inj (List.cons.inj htext).2).1] at hc
      rcases hc with hc | hc <;> exact absurd hc (by decide)
  · rintro rfl
    exact .or ((derivesList_iff h hne).mpr rfl)

end Connectives

end AuthMe.Ldap

import AuthMe.Scim.Literal

/-!
# JSON strings

The grammar of the text between the quotation marks of a JSON string (ECMA-404), for the UTF-16 code
units that it stands for, and `JSON.stringify` of a string. `parseLiteral` reads the grammar
(`parseLiteral_iff`) and gives back what was written (`parseLiteral_quote`).
-/

namespace AuthMe.Scim

/-- An escape of one character. -/
inductive JsonEscape : Char → Nat → Prop
  | quotationMark : JsonEscape '"' 0x22
  | reverseSolidus : JsonEscape '\\' 0x5C
  | solidus : JsonEscape '/' 0x2F
  | backspace : JsonEscape 'b' 0x08
  | formFeed : JsonEscape 'f' 0x0C
  | lineFeed : JsonEscape 'n' 0x0A
  | carriageReturn : JsonEscape 'r' 0x0D
  | tabulation : JsonEscape 't' 0x09

/-- `char`. -/
inductive JsonChar : List Char → List Nat → Prop
  | unescaped {c : Char} (hcontrol : 0x20 ≤ c.toNat) (hquote : c ≠ '"') (hescape : c ≠ '\\') :
      JsonChar [c] (Text.charUnits c)
  | escape {c : Char} {unit : Nat} (h : JsonEscape c unit) : JsonChar ['\\', c] [unit]
  | unicode {a b c d : Char} {unit : Nat} (h : hexUnit? a b c d = some unit) :
      JsonChar ['\\', 'u', a, b, c, d] [unit]

/-- `char*`. -/
inductive JsonChars : List Char → List Nat → Prop
  | nil : JsonChars [] []
  | cons {s t : List Char} {units rest : List Nat} (h : JsonChar s units) (ht : JsonChars t rest) :
      JsonChars (s ++ t) (units ++ rest)

/-! ## Reading -/

theorem escape?_iff {c : Char} {unit : Nat} : escape? c = some unit ↔ JsonEscape c unit := by
  constructor
  · intro h
    unfold escape? at h
    split at h <;> cases h <;> constructor
  · intro h
    cases h <;> rfl

theorem parseLiteral_unescaped {c : Char} (hcontrol : 0x20 ≤ c.toNat) (hquote : c ≠ '"')
    (hescape : c ≠ '\\') (rest : List Char) :
    parseLiteral (c :: rest) = (parseLiteral rest).map (Text.charUnits c ++ ·) := by
  rw [parseLiteral, if_neg (by simp [hquote]; omega)]
  · intro h
    exact absurd h hescape
  · intro _ _ _ _ _ h
    exact absurd h hescape
  · intro _ _ h
    exact absurd h hescape

theorem parseLiteral_escape {c : Char} {unit : Nat} (h : JsonEscape c unit) (rest : List Char) :
    parseLiteral ('\\' :: c :: rest) = (parseLiteral rest).map (unit :: ·) := by
  have hne : c ≠ 'u' := by
    rintro rfl
    cases h
  rw [parseLiteral, escape?_iff.mpr h]
  · cases parseLiteral rest <;> rfl
  · intro _ _ _ _ _ h
    exact absurd h hne

theorem parseLiteral_unicode {a b c d : Char} {unit : Nat} (h : hexUnit? a b c d = some unit)
    (rest : List Char) :
    parseLiteral ('\\' :: 'u' :: a :: b :: c :: d :: rest) =
      (parseLiteral rest).map (unit :: ·) := by
  rw [parseLiteral, h]
  cases parseLiteral rest <;> rfl

theorem parseLiteral_of_chars {s : List Char} {units : List Nat} (h : JsonChars s units) :
    parseLiteral s = some units := by
  induction h with
  | nil => rfl
  | cons h _ ih =>
    cases h with
    | unescaped hcontrol hquote hescape =>
      rw [List.singleton_append, parseLiteral_unescaped hcontrol hquote hescape, ih]
      rfl
    | escape h =>
      rw [List.cons_append, List.singleton_append, parseLiteral_escape h, ih]
      rfl
    | unicode h =>
      simp only [List.cons_append, List.nil_append]
      rw [parseLiteral_unicode h, ih]
      rfl

theorem chars_of_parseLiteral {s : List Char} {units : List Nat} (h : parseLiteral s = some units) :
    JsonChars s units := by
  induction s using parseLiteral.induct generalizing units with
  | case1 => cases h; exact .nil
  | case2 => cases h
  | case3 a b c d rest unit units' hrest hunit ih =>
    rw [parseLiteral_unicode hunit, hrest] at h
    cases h
    exact .cons (.unicode hunit) (ih hrest)
  | case4 a b c d rest hno _ =>
    simp only [parseLiteral] at h
    cases h
  | case5 c rest hnot unit units' hrest hescape ih =>
    rw [parseLiteral_escape (escape?_iff.mp hescape), hrest] at h
    cases h
    exact .cons (.escape (escape?_iff.mp hescape)) (ih hrest)
  | case6 c rest hnot hno _ =>
    simp only [parseLiteral] at h
    cases h
  | case7 c rest hlone hu hpair hbad =>
    rw [parseLiteral, if_pos hbad] at h
    · cases h
    · exact hlone
    · exact hu
    · exact hpair
  | case8 c rest hlone _ hpair hgood ih =>
    have hescape : c ≠ '\\' := by
      rintro rfl
      cases rest with
      | nil => exact hlone rfl rfl
      | cons d rest => exact hpair d rest rfl rfl
    rw [not_or, Nat.not_lt] at hgood
    rw [parseLiteral_unescaped hgood.1 hgood.2 hescape] at h
    obtain ⟨units', hrest, rfl⟩ := Option.map_eq_some_iff.mp h
    exact .cons (.unescaped hgood.1 hgood.2 hescape) (ih hrest)

theorem parseLiteral_iff {s : List Char} {units : List Nat} :
    parseLiteral s = some units ↔ JsonChars s units :=
  ⟨chars_of_parseLiteral, parseLiteral_of_chars⟩

/-! ## Writing -/

/-- The escapes that `JSON.stringify` uses. -/
def shortEscape : Nat → Option Char
  | 0x08 => some 'b'
  | 0x09 => some 't'
  | 0x0A => some 'n'
  | 0x0C => some 'f'
  | 0x0D => some 'r'
  | 0x22 => some '"'
  | 0x5C => some '\\'
  | _ => none

/-- Four hexadecimal digits. -/
def hex4 (u : Nat) : List Char :=
  [Nat.digitChar (u / 4096), Nat.digitChar (u / 256 % 16), Nat.digitChar (u / 16 % 16),
    Nat.digitChar (u % 16)]

/-- A code unit that is not half of a pair. -/
def quoteUnit (u : Nat) : List Char :=
  match shortEscape u with
  | some c => ['\\', c]
  | none =>
    if u < 0x20 || Text.isHighSurrogate u || Text.isLowSurrogate u then '\\' :: 'u' :: hex4 u
    else [Char.ofNat u]

/-- What `JSON.stringify` writes between the quotation marks. -/
def quote : List Nat → List Char
  | [] => []
  | [u] => quoteUnit u
  | u :: v :: rest =>
    if Text.isHighSurrogate u && Text.isLowSurrogate v then
      Char.ofNat (0x10000 + (u - 0xD800) * 0x400 + (v - 0xDC00)) :: quote rest
    else quoteUnit u ++ quote (v :: rest)

/-- `JSON.stringify` of a string. -/
def stringify (units : List Nat) : String := String.ofList ('"' :: quote units ++ ['"'])

theorem hexDigit?_digitChar {n : Nat} (h : n < 16) : hexDigit? (Nat.digitChar n) = some n := by
  revert n
  decide

theorem hexUnit?_hex4 {u : Nat} (h : u < 0x10000) :
    hexUnit? (Nat.digitChar (u / 4096)) (Nat.digitChar (u / 256 % 16)) (Nat.digitChar (u / 16 % 16))
      (Nat.digitChar (u % 16)) = some u := by
  have hback : 4096 * (u / 4096) + 256 * (u / 256 % 16) + 16 * (u / 16 % 16) + u % 16 = u := by omega
  rw [hexUnit?, hexDigit?_digitChar (by omega), hexDigit?_digitChar (by omega),
    hexDigit?_digitChar (by omega), hexDigit?_digitChar (by omega)]
  simp only [hback]

theorem shortEscape_escape {u : Nat} {c : Char} (h : shortEscape u = some c) : JsonEscape c u := by
  unfold shortEscape at h
  split at h <;> cases h <;> constructor

/-- The character of two halves. -/
theorem charUnits_pair {u v : Nat} (hu : Text.isHighSurrogate u = true)
    (hv : Text.isLowSurrogate v = true) :
    Text.charUnits (Char.ofNat (0x10000 + (u - 0xD800) * 0x400 + (v - 0xDC00))) = [u, v] := by
  simp only [Text.isHighSurrogate, Text.isLowSurrogate, Bool.and_eq_true, decide_eq_true_eq] at hu hv
  rw [Text.charUnits, Text.toNat_ofNat (by rw [Nat.isValidChar]; omega), if_neg (by omega)]
  have hhigh : 0xD800 + (0x10000 + (u - 0xD800) * 0x400 + (v - 0xDC00) - 0x10000) / 0x400 = u := by
    omega
  have hlow : 0xDC00 + (0x10000 + (u - 0xD800) * 0x400 + (v - 0xDC00) - 0x10000) % 0x400 = v := by
    omega
  rw [hhigh, hlow]

theorem quoteUnit_char {u : Nat} (h : u < 0x10000) : JsonChar (quoteUnit u) [u] := by
  unfold quoteUnit
  split
  · rename_i c hc
    exact .escape (shortEscape_escape hc)
  rename_i hshort
  split
  · exact .unicode (hexUnit?_hex4 h)
  · rename_i hplain
    simp only [Bool.or_eq_true, decide_eq_true_eq, not_or, Bool.not_eq_true, Text.isHighSurrogate,
      Text.isLowSurrogate, Bool.and_eq_false_iff, decide_eq_false_iff_not] at hplain
    obtain ⟨⟨hcontrol, hhigh⟩, hlow⟩ := hplain
    have hnat : (Char.ofNat u).toNat = u := Text.toNat_ofNat (by rw [Nat.isValidChar]; omega)
    have hunits : Text.charUnits (Char.ofNat u) = [u] := by rw [Text.charUnits, hnat, if_pos h]
    have hne : ∀ c : Char, shortEscape c.toNat ≠ none → Char.ofNat u ≠ c := by
      rintro _ hc rfl
      rw [hnat] at hc
      exact hc hshort
    rw [← hunits]
    exact .unescaped (by omega) (hne _ (by decide)) (hne _ (by decide))

theorem quote_chars {units : List Nat} (h : ∀ u ∈ units, u < 0x10000) :
    JsonChars (quote units) units := by
  induction units using quote.induct with
  | case1 => exact .nil
  | case2 u =>
    have := JsonChars.cons (quoteUnit_char (h u List.mem_cons_self)) .nil
    simpa [quote] using this
  | case3 u v rest hpair ih =>
    rw [quote, if_pos hpair]
    simp only [Bool.and_eq_true] at hpair
    have hunits := charUnits_pair hpair.1 hpair.2
    have hrest := ih fun x hx => h x (List.mem_cons_of_mem _ (List.mem_cons_of_mem _ hx))
    generalize hc : Char.ofNat (0x10000 + (u - 0xD800) * 0x400 + (v - 0xDC00)) = c at hunits ⊢
    have hhigh : 0x10000 ≤ c.toNat := by
      by_contra hsmall
      rw [Text.charUnits, if_pos (by omega)] at hunits
      cases hunits
    have := JsonChars.cons (.unescaped (c := c) (by omega) ?_ ?_) hrest
    · rwa [hunits] at this
    · rintro rfl
      exact absurd hhigh (by decide)
    · rintro rfl
      exact absurd hhigh (by decide)
  | case4 u v rest hpair ih =>
    rw [quote, if_neg hpair]
    exact .cons (quoteUnit_char (h u List.mem_cons_self))
      (ih fun x hx => h x (List.mem_cons_of_mem _ hx))

/-- What is written is read back. -/
theorem parseLiteral_quote {units : List Nat} (h : ∀ u ∈ units, u < 0x10000) :
    parseLiteral (quote units) = some units := parseLiteral_iff.mpr (quote_chars h)

end AuthMe.Scim

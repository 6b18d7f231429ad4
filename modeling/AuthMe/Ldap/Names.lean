import Mathlib.Data.List.Forall2
import AuthMe.Basic
import AuthMe.Ldap.Grammar

/-!
# Distinguished names and their texts

The string representation of distinguished names (RFC 4514). A name is built with the way its values
are written: a character stands for itself, or it is written with an escape, or by the octets of its
UTF-8 encoding, or the whole value is its BER encoding in hexadecimal digits. So every text of the
grammar is `Dn.text` of a name, and a value means at most the texts that `Value.Means` says.
-/

namespace AuthMe.Ldap

/-! ## Values -/

/-- How a part of a value is written. -/
inductive Piece
  | plain (c : Char)
  /-- `ESC` and the character. -/
  | special (c : Char)
  /-- `ESC` and two hexadecimal digits, for each octet. -/
  | hex (pairs : List (Char × Char))

/-- The characters that stand for themselves inside of a value. -/
def isStringChar (c : Char) : Bool :=
  !(['\x00', '"', '+', ',', ';', '<', '>', '\\'].contains c)

/-- `special`, and `ESC` itself. -/
def isEscapable (c : Char) : Bool := ['\\', '"', '+', ',', ';', '<', '>', ' ', '#', '='].contains c

/-- `hexpair`. -/
def isHexPair (pair : Char × Char) : Bool := (hexDigit pair.1).isSome && (hexDigit pair.2).isSome

def octet (pair : Char × Char) : UInt8 :=
  UInt8.ofNat (16 * (hexDigit pair.1).getD 0 + (hexDigit pair.2).getD 0)

namespace Piece

def isOk : Piece → Bool
  | plain c => isStringChar c
  | special c => isEscapable c
  | hex pairs => pairs ≠ [] && pairs.all isHexPair

def text : Piece → List Char
  | plain c => [c]
  | special c => ['\\', c]
  | hex pairs => pairs.flatMap fun pair => ['\\', pair.1, pair.2]

/-- The character that the piece stands for. -/
def Means : Piece → Char → Prop
  | plain c, d | special c, d => d = c
  | hex pairs, d => pairs.map octet = String.utf8EncodeChar d

/-- `leadchar`, where the piece is the first one. -/
def canLead : Piece → Bool
  | plain c => c ≠ ' ' && c ≠ '#'
  | _ => true

/-- `trailchar`, where the piece is the last one. -/
def canTrail : Piece → Bool
  | plain c => c ≠ ' '
  | _ => true

end Piece

/-- `attributeValue`. -/
inductive Value
  | string (pieces : List Piece)
  | hexstring (pairs : List (Char × Char))

/-- The reading of a BER encoding as a text. A character takes an octet or more. -/
structure Ber where
  decode : Octets → Option (List Char)
  short : ∀ octets s, decode octets = some s → s.length ≤ octets.length

namespace Value

def isOk : Value → Bool
  | string pieces =>
    pieces.all Piece.isOk && pieces.head?.all Piece.canLead && pieces.getLast?.all Piece.canTrail
  | hexstring pairs => pairs ≠ [] && pairs.all isHexPair

def text : Value → List Char
  | string pieces => pieces.flatMap Piece.text
  | hexstring pairs => '#' :: pairs.flatMap fun pair => [pair.1, pair.2]

/-- The unescaped value. -/
def Means (ber : Ber) : Value → List Char → Prop
  | string pieces, s => List.Forall₂ Piece.Means pieces s
  | hexstring pairs, s => ber.decode (pairs.map octet) = some s

/-- The value in which every character stands for itself. -/
def plain (s : List Char) : Value := string (s.map Piece.plain)

end Value

/-! ## Names -/

/-- `attributeTypeAndValue`. -/
structure Attribute where
  type : List Char
  value : Value
  typeOk : Oid type
  valueOk : value.isOk = true

def Attribute.text (a : Attribute) : List Char := a.type ++ '=' :: a.value.text

/-- The attribute is the common name: by one of its descriptors, or by its object identifier. -/
def Attribute.IsCn (a : Attribute) : Prop :=
  a.type.map asciiLower = "cn".toList ∨ a.type.map asciiLower = "commonname".toList ∨
    a.type = "2.5.4.3".toList

/-- `relativeDistinguishedName`. -/
structure Rdn where
  attributes : List Attribute
  nonempty : attributes ≠ []

def Rdn.text (rdn : Rdn) : List Char := ['+'].intercalate (rdn.attributes.map Attribute.text)

/-- `distinguishedName`. -/
abbrev Dn := List Rdn

def Dn.text (dn : Dn) : List Char := [','].intercalate (dn.map Rdn.text)

theorem around_ne_nil (before : List Attribute) (a : Attribute) (after : List Attribute) :
    before ++ a :: after ≠ [] := by
  simp

/-- A name without one of its attributes. -/
@[ext] structure Place where
  pre : Dn
  before : List Attribute
  after : List Attribute
  post : Dn

/-- The name with an attribute at the place. -/
def Place.fill (place : Place) (a : Attribute) : Dn :=
  place.pre ++
    ⟨place.before ++ a :: place.after, around_ne_nil place.before a place.after⟩ :: place.post

/-! ## Texts -/

/-- What is before and after one of the texts that are put together. -/
theorem intercalate_around {sep : Char} (pre : List (List Char)) (s : List Char)
    (post : List (List Char)) :
    [sep].intercalate (pre ++ s :: post) =
      pre.flatMap (fun t => t ++ [sep]) ++ (s ++ post.flatMap fun t => sep :: t) := by
  have after : ∀ (s : List Char) (post : List (List Char)),
      [sep].intercalate (s :: post) = s ++ post.flatMap fun t => sep :: t := by
    intro s post
    induction post generalizing s with
    | nil => simp
    | cons t post ih =>
      rw [List.intercalate_cons_cons, ih, List.flatMap_cons]
      simp
  induction pre with
  | nil => exact after s post
  | cons t pre ih =>
    cases pre with
    | nil =>
      rw [List.cons_append, List.nil_append, List.intercalate_cons_cons, after]
      simp
    | cons u pre =>
      rw [List.cons_append, List.cons_append, List.intercalate_cons_cons, ← List.cons_append, ih]
      simp

/-- What is before an attribute. -/
def Place.lead (place : Place) : List Char :=
  place.pre.flatMap (fun rdn => rdn.text ++ [',']) ++
    place.before.flatMap fun b => b.text ++ ['+']

/-- What is after an attribute. -/
def Place.tail (place : Place) : List Char :=
  (place.after.flatMap fun b => '+' :: b.text) ++ place.post.flatMap fun rdn => ',' :: rdn.text

/-- The text of a name, around one attribute. -/
theorem text_fill (place : Place) (a : Attribute) :
    Dn.text (place.fill a) = place.lead ++ a.type ++ '=' :: (a.value.text ++ place.tail) := by
  rw [Dn.text, Place.fill, List.map_append, List.map_cons, intercalate_around]
  simp only [List.flatMap_map, Rdn.text, List.map_append, List.map_cons, intercalate_around,
    Attribute.text, Place.lead, Place.tail, List.append_assoc, List.cons_append]

/-- What is before an RDN is the text of the RDNs before it, and a comma. -/
theorem lead_eq {pre : Dn} (h : pre ≠ []) :
    pre.flatMap (fun rdn => rdn.text ++ [',']) = Dn.text pre ++ [','] := by
  rcases List.eq_nil_or_concat pre with hnil | ⟨init, rdn, hpre⟩
  · exact absurd hnil h
  · rw [hpre, List.concat_eq_append, Dn.text, List.map_append, List.map_cons, List.map_nil,
      intercalate_around]
    simp [List.flatMap_append, List.flatMap_map]

theorem Oid.ne_nil {s : List Char} (h : Oid s) : s ≠ [] := by
  rintro rfl
  rcases h with h | h
  · cases h
  · generalize hs : ([] : List Char) = s at h
    cases h <;> simp at hs

section

variable (a : Attribute)

theorem Attribute.not_mem_type {x : Char} (hx : isAttrChar x = false) : x ∉ a.type := by
  intro hmem
  rw [a.typeOk.attr x hmem] at hx
  cases hx

theorem Attribute.exists_first : ∃ c rest, a.type = c :: rest ∧ isAttrChar c = true := by
  cases htype : a.type with
  | nil => exact absurd htype a.typeOk.ne_nil
  | cons c rest => exact ⟨c, rest, rfl, a.typeOk.attr c (htype ▸ List.mem_cons_self)⟩

end

/-! ## What a value means -/

theorem comma_not_mem_pairs {pairs : List (Char × Char)} (h : pairs.all isHexPair = true) :
    ∀ pair ∈ pairs, pair.1 ≠ ',' ∧ pair.2 ≠ ',' := by
  intro pair hpair
  have hdigits := List.all_eq_true.mp h pair hpair
  simp only [isHexPair, Bool.and_eq_true] at hdigits
  constructor
  · intro heq
    rw [heq] at hdigits
    exact absurd hdigits.1 (by decide)
  · intro heq
    rw [heq] at hdigits
    exact absurd hdigits.2 (by decide)

theorem exists_of_forall₂ {α β : Type} {r : α → β → Prop} {l : List α} {m : List β}
    (h : List.Forall₂ r l m) {x : α} (hx : x ∈ l) : ∃ y ∈ m, r x y := by
  induction h with
  | nil => cases hx
  | cons hhead _ ih =>
    rcases List.mem_cons.mp hx with heq | htail
    · exact ⟨_, List.mem_cons_self, heq ▸ hhead⟩
    · obtain ⟨y, hy, hr⟩ := ih htail
      exact ⟨y, List.mem_cons_of_mem _ hy, hr⟩

/-- A comma in the text of a value stands for itself. -/
theorem Value.comma_of_means {ber : Ber} {value : Value} {s : List Char} (hok : value.isOk = true)
    (hmeans : value.Means ber s) (hcomma : ',' ∈ value.text) : ',' ∈ s := by
  cases value with
  | string pieces =>
    simp only [Value.isOk, Bool.and_eq_true, List.all_eq_true] at hok
    obtain ⟨piece, hpiece, hmem⟩ := List.mem_flatMap.mp hcomma
    obtain ⟨d, hd, hdmeans⟩ := exists_of_forall₂ hmeans hpiece
    cases piece with
    | plain c =>
      have hc : ',' = c := by simpa [Piece.text] using hmem
      subst hc
      exact absurd (hok.1.1 _ hpiece) (by decide)
    | special c =>
      have hc : ',' = c := by simpa [Piece.text] using hmem
      subst hc
      have heq : d = ',' := hdmeans
      exact heq ▸ hd
    | hex pairs =>
      have hpairs := hok.1.1 _ hpiece
      simp only [Piece.isOk, Bool.and_eq_true] at hpairs
      have hnot := comma_not_mem_pairs hpairs.2
      simp only [Piece.text, List.mem_flatMap, List.mem_cons, List.not_mem_nil, or_false] at hmem
      obtain ⟨pair, hpair, hchar⟩ := hmem
      rcases hchar with hchar | hchar | hchar
      · exact absurd hchar (by decide)
      · exact absurd hchar.symm (hnot pair hpair).1
      · exact absurd hchar.symm (hnot pair hpair).2
  | hexstring pairs =>
    simp only [Value.isOk, Bool.and_eq_true] at hok
    have hnot := comma_not_mem_pairs hok.2
    simp only [Value.text, List.mem_cons, List.mem_flatMap, List.not_mem_nil, or_false] at hcomma
    rcases hcomma with hcomma | ⟨pair, hpair, hchar⟩
    · exact absurd hcomma (by decide)
    · rcases hchar with hchar | hchar
      · exact absurd hchar.symm (hnot pair hpair).1
      · exact absurd hchar.symm (hnot pair hpair).2

end AuthMe.Ldap

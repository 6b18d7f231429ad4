import Mathlib.Data.List.Basic
import Mathlib.Data.List.Nodup

/-!
# XML documents up to the root's start tag

The grammar of what stands before the root element and of its start tag, and what a parser reports
for the attributes: references are replaced, and the characters that end a line, and tabs, become
blanks. What comes after the start tag is left open.
-/

namespace Xml

/-! ## Characters -/

def isSpace (c : Char) : Bool := [' ', '\t', '\n', '\r'].contains c

def isNameStartChar (c : Char) : Bool :=
  c = ':' || ('A' ≤ c && c ≤ 'Z') || c = '_' || ('a' ≤ c && c ≤ 'z') ||
    [(0xC0, 0xD6), (0xD8, 0xF6), (0xF8, 0x2FF), (0x370, 0x37D), (0x37F, 0x1FFF), (0x200C, 0x200D),
      (0x2070, 0x218F), (0x2C00, 0x2FEF), (0x3001, 0xD7FF), (0xF900, 0xFDCF), (0xFDF0, 0xFFFD),
      (0x10000, 0xEFFFF)].any fun r => r.1 ≤ c.toNat && c.toNat ≤ r.2

def isNameChar (c : Char) : Bool :=
  isNameStartChar c || c = '-' || c = '.' || ('0' ≤ c && c ≤ '9') || c.toNat = 0xB7 ||
    (0x300 ≤ c.toNat && c.toNat ≤ 0x36F) || (0x203F ≤ c.toNat && c.toNat ≤ 0x2040)

/-- The characters that delimit a value and the one that ends a tag are in no name. -/
theorem isNameChar_eq_false {c : Char} (h : c = '"' ∨ c = '\'' ∨ c = '>' ∨ c = '=') :
    isNameChar c = false := by
  rcases h with rfl | rfl | rfl | rfl <;> decide

/-- A name without a colon. -/
structure NCName (name : List Char) : Prop where
  start : ∃ c rest, name = c :: rest ∧ isNameStartChar c = true
  chars : ∀ c ∈ name, isNameChar c = true ∧ c ≠ ':'

/-! ## Values -/

inductive Entity
  | amp | lt | gt | apos | quot
  deriving DecidableEq

def Entity.name : Entity → List Char
  | .amp => ['a', 'm', 'p']
  | .lt => ['l', 't']
  | .gt => ['g', 't']
  | .apos => ['a', 'p', 'o', 's']
  | .quot => ['q', 'u', 'o', 't']

def Entity.char : Entity → Char
  | .amp => '&'
  | .lt => '<'
  | .gt => '>'
  | .apos => '\''
  | .quot => '"'

def digit (c : Char) : Nat :=
  if c ≤ '9' then c.toNat - '0'.toNat
  else if c ≤ 'F' then c.toNat - 'A'.toNat + 10
  else c.toNat - 'a'.toNat + 10

def isDigit (c : Char) : Bool := '0' ≤ c && c ≤ '9'

def isHexDigit (c : Char) : Bool := isDigit c || ('A' ≤ c && c ≤ 'F') || ('a' ≤ c && c ≤ 'f')

def number (base : Nat) (digits : List Char) : Nat := digits.foldl (fun n c => base * n + digit c) 0

/-- A character of a value, or a reference to one. -/
inductive Piece
  | char (c : Char)
  | entity (e : Entity)
  | decimal (digits : List Char)
  | hex (digits : List Char)
  deriving DecidableEq

namespace Piece

def text : Piece → List Char
  | char c => [c]
  | entity e => '&' :: (e.name ++ [';'])
  | decimal digits => '&' :: '#' :: (digits ++ [';'])
  | hex digits => '&' :: '#' :: 'x' :: (digits ++ [';'])

end Piece

/-- What a parser reports for a value. -/
def normalizeValue : List Piece → List Char
  | [] => []
  | .char '\r' :: .char '\n' :: rest => ' ' :: normalizeValue rest
  | .char c :: rest => (if isSpace c then ' ' else c) :: normalizeValue rest
  | .entity e :: rest => e.char :: normalizeValue rest
  | .decimal digits :: rest => Char.ofNat (number 10 digits) :: normalizeValue rest
  | .hex digits :: rest => Char.ofNat (number 16 digits) :: normalizeValue rest

inductive Quote
  | double
  | single
  deriving DecidableEq

def Quote.char : Quote → Char
  | .double => '"'
  | .single => '\''

structure Piece.WellFormed (quote : Quote) (p : Piece) : Prop where
  char : ∀ c, p = .char c → c ≠ quote.char ∧ c ≠ '<' ∧ c ≠ '&'
  decimal : ∀ digits, p = .decimal digits → digits ≠ [] ∧ ∀ c ∈ digits, isDigit c = true
  hex : ∀ digits, p = .hex digits → digits ≠ [] ∧ ∀ c ∈ digits, isHexDigit c = true

/-! ## Start tags -/

/-- An attribute, with the white space before it and around its equals sign. -/
structure Attribute where
  space : List Char
  name : List Char
  before : List Char
  after : List Char
  quote : Quote
  value : List Piece
  deriving DecidableEq

namespace Attribute

/-- What stands before the value. -/
def head (a : Attribute) : List Char := a.space ++ (a.name ++ (a.before ++ '=' :: a.after))

/-- The value as it is written. -/
def raw (a : Attribute) : List Char := a.value.flatMap Piece.text

def text (a : Attribute) : List Char := a.head ++ a.quote.char :: (a.raw ++ [a.quote.char])

structure WellFormed (a : Attribute) : Prop where
  space : a.space ≠ [] ∧ ∀ c ∈ a.space, isSpace c = true
  name : a.name ≠ [] ∧ ∀ c ∈ a.name, isNameChar c = true
  before : ∀ c ∈ a.before, isSpace c = true
  after : ∀ c ∈ a.after, isSpace c = true
  value : ∀ p ∈ a.value, p.WellFormed a.quote

/-- No character is written as a reference, and no tab and no end of a line is in the value. -/
def Plain (a : Attribute) : Prop := ∀ p ∈ a.value, ∃ c, p = .char c ∧ (isSpace c = true → c = ' ')

end Attribute

/-! ## Documents -/

/-- What can stand before the root element. The XML declaration has the form of a processing
instruction. -/
inductive Misc
  | space (c : Char)
  | comment (body : List Char)
  | instruction (body : List Char)
  deriving DecidableEq

namespace Misc

def text : Misc → List Char
  | space c => [c]
  | comment body => '<' :: '!' :: '-' :: '-' :: (body ++ ['-', '-', '>'])
  | instruction body => '<' :: '?' :: (body ++ ['?', '>'])

structure WellFormed (m : Misc) : Prop where
  space : ∀ c, m = .space c → isSpace c = true
  comment : ∀ body, m = .comment body → ¬ ['-', '-'] <:+: body ++ ['-']
  instruction : ∀ body, m = .instruction body → ¬ ['?', '>'] <:+: body

end Misc

/-- A document. The text after the start tag of the root is `rest`. -/
structure Document where
  byteOrderMark : Bool
  prolog : List Misc
  pre : Option (List Char)
  localName : List Char
  attributes : List Attribute
  space : List Char
  empty : Bool
  rest : List Char

namespace Document

def close (d : Document) : List Char := d.space ++ if d.empty then ['/'] else []

def name (d : Document) : List Char :=
  match d.pre with
  | none => d.localName
  | some pre => pre ++ ':' :: d.localName

/-- The start tag after the name of the element. -/
def tag (d : Document) : List Char :=
  d.attributes.flatMap Attribute.text ++ (d.close ++ '>' :: d.rest)

def text (d : Document) : List Char :=
  (if d.byteOrderMark then [Char.ofNat 0xFEFF] else []) ++
    (d.prolog.flatMap Misc.text ++ '<' :: (d.name ++ d.tag))

structure WellFormed (d : Document) : Prop where
  prolog : ∀ m ∈ d.prolog, m.WellFormed
  pre : ∀ pre, d.pre = some pre → NCName pre
  localName : NCName d.localName
  attributes : ∀ a ∈ d.attributes, a.WellFormed
  unique : (d.attributes.map Attribute.name).Nodup
  space : ∀ c ∈ d.space, isSpace c = true

/-- The attribute of that name. -/
def attribute? (d : Document) (name : String) : Option Attribute :=
  d.attributes.find? fun a => a.name = name.toList

/-- What a parser reports for the attribute. -/
def reported (d : Document) (name : String) : Option String :=
  (d.attribute? name).map fun a => String.ofList (normalizeValue a.value)

end Document

/-! ## Normalization -/

theorem length_normalizeValue_le (ps : List Piece) :
    (normalizeValue ps).length ≤ (ps.flatMap Piece.text).length := by
  induction ps using normalizeValue.induct with
  | case1 => exact Nat.le_refl _
  | case2 rest ih =>
    simp only [normalizeValue, List.flatMap_cons, Piece.text, List.length_append, List.length_cons,
      List.length_nil]
    omega
  | case3 c rest h ih =>
    rw [normalizeValue]
    · simp only [List.flatMap_cons, Piece.text, List.length_append, List.length_cons, List.length_nil]
      omega
    · exact h
  | case4 e rest ih | case5 digits rest ih | case6 digits rest ih =>
    simp only [normalizeValue, List.flatMap_cons, List.length_append, List.length_cons, Piece.text]
    omega

/-- A value is reported as it is written if and only if it is plain. -/
theorem normalizeValue_eq_iff (ps : List Piece) :
    normalizeValue ps = ps.flatMap Piece.text ↔
      ∀ p ∈ ps, ∃ c, p = .char c ∧ (isSpace c = true → c = ' ') := by
  induction ps using normalizeValue.induct with
  | case1 => simp [normalizeValue]
  | case2 rest ih =>
    constructor
    · intro h
      have hlength := congrArg List.length h
      have hle := length_normalizeValue_le rest
      simp only [normalizeValue, List.flatMap_cons, Piece.text, List.length_append, List.length_cons,
        List.length_nil] at hlength
      omega
    · intro h
      obtain ⟨c, hc, hspace⟩ := h _ (.head _)
      cases hc
      exact absurd (hspace (by decide)) (by decide)
  | case3 c rest h ih =>
    rw [normalizeValue]
    · simp only [List.flatMap_cons, Piece.text, List.cons_append, List.nil_append, List.cons.injEq, ih,
        List.forall_mem_cons, Piece.char.injEq, exists_eq_left']
      refine and_congr_left fun _ => ?_
      by_cases hc : isSpace c = true
      · simp [hc, eq_comm]
      · simp [hc]
    · exact h
  | case4 e rest ih | case5 digits rest ih | case6 digits rest ih =>
    constructor
    · intro h
      have hlength := congrArg List.length h
      have hle := length_normalizeValue_le rest
      simp only [normalizeValue, List.flatMap_cons, List.length_append, List.length_cons, Piece.text] at hlength
      omega
    · intro h
      obtain ⟨c, hc, -⟩ := h _ (.head _)
      cases hc

/-! ## Well-formed values and tags -/

theorem digit_ne_quote {quote : Quote} {c : Char} (h : isHexDigit c = true) : c ≠ quote.char := by
  rintro rfl
  revert h
  cases quote <;> decide

theorem isHexDigit_of_isDigit {c : Char} (h : isDigit c = true) : isHexDigit c = true := by
  simp [isHexDigit, h]

/-- A value does not contain the quote it stands in. -/
theorem Piece.WellFormed.quote_not_mem {quote : Quote} {p : Piece} (h : p.WellFormed quote) :
    quote.char ∉ p.text := by
  cases p with
  | char c =>
    have hc := (h.char c rfl).1
    simp [Piece.text, hc.symm]
  | entity e => cases quote <;> cases e <;> decide
  | decimal digits =>
    have hdigits : quote.char ∉ digits := fun hmem =>
      digit_ne_quote (isHexDigit_of_isDigit ((h.decimal digits rfl).2 _ hmem)) rfl
    cases quote <;> simpa [Piece.text, Quote.char] using hdigits
  | hex digits =>
    have hdigits : quote.char ∉ digits := fun hmem => digit_ne_quote ((h.hex digits rfl).2 _ hmem) rfl
    cases quote <;> simpa [Piece.text, Quote.char] using hdigits

namespace Attribute.WellFormed

variable {a : Attribute}

theorem quote_not_mem (h : a.WellFormed) : a.quote.char ∉ a.raw := by
  intro hmem
  obtain ⟨p, hp, hp'⟩ := List.mem_flatMap.mp hmem
  exact (h.value p hp).quote_not_mem hp'

/-- A character with neither role in a tag is not before the value. -/
theorem not_mem_head (h : a.WellFormed) {c : Char} (hname : isNameChar c = false)
    (hspace : isSpace c = false) (hne : c ≠ '=') : c ∉ a.head := by
  have hlist : ∀ list : List Char, (∀ d ∈ list, isSpace d = true) → c ∉ list := by
    intro list hlist hmem
    have htrue := hlist c hmem
    rw [hspace] at htrue
    cases htrue
  have hnot : c ∉ a.name := by
    intro hmem
    have htrue := h.name.2 c hmem
    rw [hname] at htrue
    cases htrue
  simp only [head, List.mem_append, List.mem_cons, not_or]
  exact ⟨hlist _ h.space.2, hnot, hlist _ h.before, hne, hlist _ h.after⟩

end Attribute.WellFormed

theorem Attribute.normalizeValue_eq_raw_iff (a : Attribute) : normalizeValue a.value = a.raw ↔ a.Plain :=
  normalizeValue_eq_iff a.value

/-- An attribute is found by its name. -/
theorem Document.attribute?_of_mem {d : Document} (unique : (d.attributes.map Attribute.name).Nodup)
    {a : Attribute} (ha : a ∈ d.attributes) {name : String} (hname : a.name = name.toList) :
    d.attribute? name = some a := by
  unfold Document.attribute?
  revert ha unique
  induction d.attributes with
  | nil => exact fun _ ha => by cases ha
  | cons b rest ih =>
    intro unique ha
    obtain ⟨hfirst, hrest⟩ := List.nodup_cons.mp unique
    rcases List.mem_cons.mp ha with rfl | ha
    · simp [hname]
    · have hne : b.name ≠ name.toList := by
        intro heq
        apply hfirst
        rw [heq, ← hname]
        exact List.mem_map_of_mem ha
      simpa [hne] using ih hrest ha

end Xml

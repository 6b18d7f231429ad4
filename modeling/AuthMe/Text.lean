import Mathlib.Data.List.Basic

/-!
# Text

The functions of JavaScript strings that the repository uses and that Lean's own
functions do not agree with.
-/

namespace AuthMe.Text

/-- The characters that `String.prototype.trim` removes. -/
def isWhiteSpace (c : Char) : Bool :=
  [0x09, 0x0A, 0x0B, 0x0C, 0x0D, 0x20, 0xA0, 0x1680, 0x2028, 0x2029, 0x202F, 0x205F, 0x3000,
    0xFEFF].contains c.toNat || (0x2000 ≤ c.toNat && c.toNat ≤ 0x200A)

/-- What `.` does not match in a regular expression. -/
def isLineTerminator (c : Char) : Bool := [0x0A, 0x0D, 0x2028, 0x2029].contains c.toNat

/-- The word is somewhere in the text. -/
def hasInfix (word text : List Char) : Bool := text.tails.any word.isPrefixOf

/-- `trim()`. -/
def trim (s : String) : String :=
  String.ofList (((s.toList.dropWhile isWhiteSpace).reverse.dropWhile isWhiteSpace).reverse)

/-- `length`, in UTF-16 code units. -/
def length (s : String) : Nat :=
  s.toList.foldl (fun n c => n + if c.toNat < 0x10000 then 1 else 2) 0

/-- The UTF-16 code units of a character. -/
def charUnits (c : Char) : List Nat :=
  if c.toNat < 0x10000 then [c.toNat]
  else [0xD800 + (c.toNat - 0x10000) / 0x400, 0xDC00 + (c.toNat - 0x10000) % 0x400]

/-- The UTF-16 code units of a text. -/
def units (s : String) : List Nat := s.toList.flatMap charUnits

def isHighSurrogate (u : Nat) : Bool := 0xD800 ≤ u && u < 0xDC00

def isLowSurrogate (u : Nat) : Bool := 0xDC00 ≤ u && u < 0xE000

/-- The character of a code unit that is not the first half of a pair. -/
def single (u : Nat) : Char :=
  if u < 0xD800 ∨ 0xE000 ≤ u ∧ u < 0x10000 then Char.ofNat u else Char.ofNat 0xFFFD

/-- The characters of code units; U+FFFD stands for a surrogate without its other half. -/
def decode : List Nat → List Char
  | [] => []
  | [u] => [single u]
  | u :: v :: rest =>
    if isHighSurrogate u && isLowSurrogate v then
      Char.ofNat (0x10000 + (u - 0xD800) * 0x400 + (v - 0xDC00)) :: decode rest
    else single u :: decode (v :: rest)

/-- `toWellFormed()`, which is also what the encoding as UTF-8 does. -/
def wellFormed (u : List Nat) : String := String.ofList (decode u)

def isAscii (s : String) : Bool := s.toList.all fun c => c.toNat < 0x80

/-! ## Code units and characters -/

theorem toNat_ofNat {n : Nat} (h : n.isValidChar) : (Char.ofNat n).toNat = n := by
  rw [Char.ofNat, dif_pos h]
  rfl

theorem single_of_char {c : Char} (h : c.toNat < 0x10000) : single c.toNat = c := by
  have hvalid : c.toNat < 0xD800 ∨ 0xE000 ≤ c.toNat ∧ c.toNat < 0x10000 := by
    have hc := c.valid
    change c.toNat.isValidChar at hc
    rw [Nat.isValidChar] at hc
    omega
  rw [single, if_pos hvalid]
  exact Char.ofNat_toNat c

theorem decode_cons {u : Nat} (h : isHighSurrogate u = false) (rest : List Nat) :
    decode (u :: rest) = single u :: decode rest := by
  cases rest with
  | nil => rfl
  | cons v rest => simp [decode, h]

theorem decode_charUnits (c : Char) (rest : List Nat) :
    decode (charUnits c ++ rest) = c :: decode rest := by
  have hc := c.valid
  change c.toNat.isValidChar at hc
  rw [Nat.isValidChar] at hc
  unfold charUnits
  split
  · rename_i h
    have hhigh : isHighSurrogate c.toNat = false := by
      simp only [isHighSurrogate, Bool.and_eq_false_iff, decide_eq_false_iff_not]
      omega
    rw [List.singleton_append, decode_cons hhigh, single_of_char h]
  · rename_i h
    have hpair : (isHighSurrogate (0xD800 + (c.toNat - 0x10000) / 0x400) &&
        isLowSurrogate (0xDC00 + (c.toNat - 0x10000) % 0x400)) = true := by
      simp only [isHighSurrogate, isLowSurrogate, Bool.and_eq_true, decide_eq_true_eq]
      omega
    have hback : 0x10000 + (0xD800 + (c.toNat - 0x10000) / 0x400 - 0xD800) * 0x400 +
        (0xDC00 + (c.toNat - 0x10000) % 0x400 - 0xDC00) = c.toNat := by omega
    simp only [List.cons_append, List.nil_append, decode, hpair, if_true, hback]
    rw [Char.ofNat_toNat]

theorem decode_units (s : String) : decode (units s) = s.toList := by
  unfold units
  induction s.toList with
  | nil => rfl
  | cons c cs ih => rw [List.flatMap_cons, decode_charUnits, ih]

@[simp] theorem wellFormed_units (s : String) : wellFormed (units s) = s := by
  rw [wellFormed, decode_units, String.ofList_toList]

theorem units_inj {s t : String} : units s = units t ↔ s = t := by
  constructor
  · intro h
    rw [← wellFormed_units s, h, wellFormed_units]
  · intro h
    rw [h]

theorem charUnits_single {u : Nat} (h : single u ≠ Char.ofNat 0xFFFD) :
    charUnits (single u) = [u] := by
  unfold single at h ⊢
  split
  · rename_i hu
    have hnat : (Char.ofNat u).toNat = u := toNat_ofNat (by rw [Nat.isValidChar]; omega)
    rw [charUnits, hnat, if_pos (by omega)]
  · rename_i hu
    rw [if_neg hu] at h
    exact absurd rfl h

/-- Code units in which nothing had to be replaced are those of a text. -/
theorem units_wellFormed {u : List Nat} (h : Char.ofNat 0xFFFD ∉ decode u) :
    units (wellFormed u) = u := by
  rw [units, wellFormed, String.toList_ofList]
  induction u using decode.induct with
  | case1 => rfl
  | case2 u =>
    simp only [decode, List.mem_singleton] at h
    simp [decode, charUnits_single (Ne.symm h)]
  | case3 u v rest hpair ih =>
    simp only [decode, hpair, if_true, List.mem_cons, not_or] at h ⊢
    rw [List.flatMap_cons, ih h.2]
    simp only [isHighSurrogate, isLowSurrogate, Bool.and_eq_true, decide_eq_true_eq] at hpair
    have hnat : (Char.ofNat (0x10000 + (u - 0xD800) * 0x400 + (v - 0xDC00))).toNat =
        0x10000 + (u - 0xD800) * 0x400 + (v - 0xDC00) :=
      toNat_ofNat (by rw [Nat.isValidChar]; omega)
    rw [charUnits, hnat, if_neg (by omega)]
    have hhigh : 0xD800 + (0x10000 + (u - 0xD800) * 0x400 + (v - 0xDC00) - 0x10000) / 0x400 = u := by
      omega
    have hlow : 0xDC00 + (0x10000 + (u - 0xD800) * 0x400 + (v - 0xDC00) - 0x10000) % 0x400 = v := by
      omega
    rw [hhigh, hlow]
    rfl
  | case4 u v rest hpair ih =>
    simp only [decode, hpair, if_false, List.mem_cons, not_or, Bool.false_eq_true] at h ⊢
    rw [List.flatMap_cons, ih h.2, charUnits_single (Ne.symm h.1)]
    rfl

/-- What is encoded as an ASCII text is that text. -/
theorem wellFormed_eq_ascii {u : List Nat} {s : String} (hs : isAscii s = true) :
    wellFormed u = s ↔ u = units s := by
  constructor
  · intro h
    have hno : Char.ofNat 0xFFFD ∉ decode u := by
      intro hmem
      have hall := List.all_eq_true.mp hs (Char.ofNat 0xFFFD)
        (by rw [← h, wellFormed, String.toList_ofList]; exact hmem)
      exact absurd hall (by decide)
    rw [← h, units_wellFormed hno]
  · intro h
    rw [h, wellFormed_units]

theorem length_ascii {s : String} (h : isAscii s = true) :
    length s = s.toList.length := by
  have hcount : ∀ (cs : List Char) (n : Nat), (cs.all fun c => c.toNat < 0x80) = true →
      cs.foldl (fun n c => n + if c.toNat < 0x10000 then 1 else 2) n = n + cs.length := by
    intro cs
    induction cs with
    | nil => simp
    | cons c cs ih =>
      intro n hall
      rw [List.all_cons, Bool.and_eq_true, decide_eq_true_eq] at hall
      rw [List.foldl_cons, ih _ hall.2, if_pos (by omega), List.length_cons]
      omega
  rw [length, hcount _ _ h, Nat.zero_add]

/-- The bytes of a text as UTF-8. -/
def utf8 (s : String) : List UInt8 := s.toList.flatMap String.utf8EncodeChar

/-- The bytes of an ASCII text are its characters. -/
theorem utf8_ascii {s : String} (h : isAscii s = true) :
    utf8 s = s.toList.map fun c => UInt8.ofNat c.toNat := by
  have hchars : ∀ cs : List Char, (cs.all fun c => c.toNat < 0x80) = true →
      cs.flatMap String.utf8EncodeChar = cs.map fun c => UInt8.ofNat c.toNat := by
    intro cs
    induction cs with
    | nil => intro _; rfl
    | cons c cs ih =>
      intro hall
      rw [List.all_cons, Bool.and_eq_true, decide_eq_true_eq] at hall
      have hchar : String.utf8EncodeChar c = [UInt8.ofNat c.toNat] := by
        have hc : c.toNat ≤ 0x7F := Nat.lt_succ_iff.mp hall.1
        unfold String.utf8EncodeChar
        exact if_pos hc
      rw [List.flatMap_cons, hchar, ih hall.2, List.map_cons]
      rfl
  exact hchars s.toList h

theorem length_utf8_ascii {s : String} (h : isAscii s = true) :
    (utf8 s).length = s.toList.length := by
  rw [utf8_ascii h, List.length_map]

/-- Two ASCII texts with the same bytes are the same. -/
theorem utf8_ascii_inj {s t : String} (hs : isAscii s = true) (ht : isAscii t = true)
    (h : utf8 s = utf8 t) : s = t := by
  have hread : ∀ s : String, isAscii s = true →
      (utf8 s).map (fun b => Char.ofNat b.toNat) = s.toList := by
    intro s hascii
    rw [utf8_ascii hascii, List.map_map]
    apply (List.map_congr_left ?_).trans (List.map_id _)
    intro c hc
    have hlt := of_decide_eq_true (List.all_eq_true.mp hascii c hc)
    have hbyte : (UInt8.ofNat c.toNat).toNat = c.toNat := Nat.mod_eq_of_lt (by omega)
    show Char.ofNat (UInt8.ofNat c.toNat).toNat = c
    rw [hbyte, Char.ofNat_toNat]
  rw [← String.toList_inj, ← hread s hs, ← hread t ht, h]

end AuthMe.Text

import Mathlib.Data.List.Basic

/-!
# Base64url

The encoding of bytes with the URL-safe alphabet and without padding (RFC 4648, section 5), group by
group: three bytes are four characters, and what remains is two or three. `decode` reads it back,
so no two texts of bytes have one encoding.
-/

namespace Base64

/-- The character for six bits. -/
def digit (n : Nat) : Char :=
  if n < 26 then Char.ofNat (65 + n)
  else if n < 52 then Char.ofNat (97 + (n - 26))
  else if n < 62 then Char.ofNat (48 + (n - 52))
  else if n = 62 then '-'
  else '_'

/-- The six bits of a character. -/
def value (c : Char) : Nat :=
  if 'A' ≤ c ∧ c ≤ 'Z' then c.toNat - 65
  else if 'a' ≤ c ∧ c ≤ 'z' then c.toNat - 97 + 26
  else if '0' ≤ c ∧ c ≤ '9' then c.toNat - 48 + 52
  else if c = '-' then 62
  else 63

/-- A character of the alphabet. -/
def isDigit (c : Char) : Bool :=
  ('A' ≤ c && c ≤ 'Z') || ('a' ≤ c && c ≤ 'z') || ('0' ≤ c && c ≤ '9') || c == '-' || c == '_'

theorem value_digit {n : Nat} (h : n < 64) : value (digit n) = n := by
  revert n
  decide

theorem isDigit_digit {n : Nat} (h : n < 64) : isDigit (digit n) = true := by
  revert n
  decide

/-- The characters for one, two or three bytes. -/
def encode : List UInt8 → List Char
  | [] => []
  | [a] => [digit (a.toNat / 4), digit (a.toNat % 4 * 16)]
  | [a, b] =>
    [digit (a.toNat / 4), digit (a.toNat % 4 * 16 + b.toNat / 16), digit (b.toNat % 16 * 4)]
  | a :: b :: c :: rest =>
    digit (a.toNat / 4) :: digit (a.toNat % 4 * 16 + b.toNat / 16) ::
      digit (b.toNat % 16 * 4 + c.toNat / 64) :: digit (c.toNat % 64) :: encode rest

def decode : List Char → List UInt8
  | w :: x :: y :: z :: rest =>
    UInt8.ofNat (value w * 4 + value x / 16) :: UInt8.ofNat (value x % 16 * 16 + value y / 4) ::
      UInt8.ofNat (value y % 4 * 64 + value z) :: decode rest
  | [w, x, y] =>
    [UInt8.ofNat (value w * 4 + value x / 16), UInt8.ofNat (value x % 16 * 16 + value y / 4)]
  | [w, x] => [UInt8.ofNat (value w * 4 + value x / 16)]
  | _ => []

/-- The first byte of a group is in its first two characters. -/
theorem first_byte (a : UInt8) {low : Nat} (h : low < 16) :
    UInt8.ofNat (value (digit (a.toNat / 4)) * 4 + value (digit (a.toNat % 4 * 16 + low)) / 16) =
      a := by
  have ha := a.toNat_lt
  rw [value_digit (by omega), value_digit (by omega)]
  have heq : a.toNat / 4 * 4 + (a.toNat % 4 * 16 + low) / 16 = a.toNat := by omega
  rw [heq, UInt8.ofNat_toNat]

theorem second_byte (b : UInt8) {high low : Nat} (hhigh : high < 4) (hlow : low < 4) :
    UInt8.ofNat (value (digit (high * 16 + b.toNat / 16)) % 16 * 16 +
      value (digit (b.toNat % 16 * 4 + low)) / 4) = b := by
  have hb := b.toNat_lt
  rw [value_digit (by omega), value_digit (by omega)]
  have heq : (high * 16 + b.toNat / 16) % 16 * 16 + (b.toNat % 16 * 4 + low) / 4 = b.toNat := by
    omega
  rw [heq, UInt8.ofNat_toNat]

theorem third_byte (c : UInt8) {high : Nat} (hhigh : high < 16) :
    UInt8.ofNat (value (digit (high * 4 + c.toNat / 64)) % 4 * 64 +
      value (digit (c.toNat % 64))) = c := by
  have hc := c.toNat_lt
  rw [value_digit (by omega), value_digit (by omega)]
  have heq : (high * 4 + c.toNat / 64) % 4 * 64 + c.toNat % 64 = c.toNat := by omega
  rw [heq, UInt8.ofNat_toNat]

theorem decode_encode (bytes : List UInt8) : decode (encode bytes) = bytes := by
  induction bytes using encode.induct with
  | case1 => rfl
  | case2 a =>
    have hfirst := first_byte a (show 0 < 16 by omega)
    rw [Nat.add_zero] at hfirst
    rw [encode, decode, hfirst]
  | case3 a b =>
    have hb := b.toNat_lt
    have hsecond := second_byte b (show a.toNat % 4 < 4 by omega) (show 0 < 4 by omega)
    rw [Nat.add_zero] at hsecond
    rw [encode, decode, first_byte a (by omega), hsecond]
  | case4 a b c rest ih =>
    have hb := b.toNat_lt
    have hc := c.toNat_lt
    rw [encode, decode, first_byte a (by omega), second_byte b (by omega) (by omega),
      third_byte c (by omega), ih]

theorem encode_injective : Function.Injective encode :=
  Function.LeftInverse.injective decode_encode

theorem length_encode (bytes : List UInt8) :
    (encode bytes).length = (4 * bytes.length + 2) / 3 := by
  induction bytes using encode.induct with
  | case1 => rfl
  | case2 a => simp [encode]
  | case3 a b => simp [encode]
  | case4 a b c rest ih =>
    simp only [encode, List.length_cons, ih]
    omega

theorem isDigit_of_mem_encode {bytes : List UInt8} {x : Char} (h : x ∈ encode bytes) :
    isDigit x = true := by
  induction bytes using encode.induct with
  | case1 => cases h
  | case2 a =>
    have ha := a.toNat_lt
    simp only [encode, List.mem_cons, List.not_mem_nil, or_false] at h
    rcases h with rfl | rfl <;> exact isDigit_digit (by omega)
  | case3 a b =>
    have ha := a.toNat_lt
    have hb := b.toNat_lt
    simp only [encode, List.mem_cons, List.not_mem_nil, or_false] at h
    rcases h with rfl | rfl | rfl <;> exact isDigit_digit (by omega)
  | case4 a b c rest ih =>
    have ha := a.toNat_lt
    have hb := b.toNat_lt
    have hc := c.toNat_lt
    simp only [encode, List.mem_cons] at h
    rcases h with rfl | rfl | rfl | rfl | h
    · exact isDigit_digit (by omega)
    · exact isDigit_digit (by omega)
    · exact isDigit_digit (by omega)
    · exact isDigit_digit (by omega)
    · exact ih h

example : encode [0x66, 0x6F, 0x6F, 0xFF] = "Zm9v_w".toList := by decide

end Base64
